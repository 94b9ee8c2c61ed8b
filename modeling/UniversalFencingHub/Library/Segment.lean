import Mathlib.Data.List.Nodup
import Mathlib.Logic.Function.Basic

namespace linked_list

/-- `Segment next prev before nodes after`: the nodes form a doubly linked
segment in this order. The first one points back to `before`, the last one
points forward to `after`, and neighbours point at each other. -/
def Segment {A : Type} (next prev : A → Option A) : Option A → List A → Option A → Prop
  | _, [], _ => True
  | before, node :: rest, after =>
    prev node = before ∧ next node = rest.head?.or after ∧ Segment next prev (some node) rest after

/-- The nodes met by following `next` from `first`, at most `fuel` of them. -/
def follow {A : Type} (next : A → Option A) : Nat → Option A → List A
  | 0, _ => []
  | _, none => []
  | fuel + 1, some node => node :: follow next fuel (next node)

/-- The link function after a store through a nullable pointer. -/
def relink {A : Type} [DecidableEq A] (links : A → Option A) (target value : Option A) : A → Option A :=
  match target with
  | some node => Function.update links node value
  | none => links

@[simp] theorem relink_none {A : Type} [DecidableEq A] (links : A → Option A) (value : Option A) :
    relink links none value = links := rfl

@[simp] theorem relink_some {A : Type} [DecidableEq A] (links : A → Option A) (node : A) (value : Option A) :
    relink links (some node) value = Function.update links node value := rfl

theorem relink_of_ne {A : Type} [DecidableEq A] {links : A → Option A} {target value : Option A} {node : A}
    (h : target ≠ some node) : relink links target value node = links node := by
  cases target with
  | none => rfl
  | some other => exact Function.update_of_ne (fun heq => h (congrArg some heq.symm)) _ _

theorem Segment.append {A : Type} {next prev : A → Option A} {before after : Option A}
    (front back : List A) :
    Segment next prev before (front ++ back) after ↔
      Segment next prev before front (back.head?.or after) ∧
        Segment next prev (front.getLast?.or before) back after := by
  induction front generalizing before with
  | nil => simp [Segment]
  | cons node front ih =>
    have hlast : ((node :: front).getLast?.or before) = front.getLast?.or (some node) := by
      cases front <;> simp [List.getLast?_cons]
    simp only [List.cons_append, Segment, ih, hlast, List.head?_append, Option.or_assoc, and_assoc]

/-- A segment depends only on the links of its own nodes. -/
theorem Segment.congr {A : Type} {next prev next' prev' : A → Option A} {before after : Option A}
    {nodes : List A} (hnext : ∀ node ∈ nodes, next' node = next node)
    (hprev : ∀ node ∈ nodes, prev' node = prev node)
    (h : Segment next prev before nodes after) : Segment next' prev' before nodes after := by
  induction nodes generalizing before with
  | nil => trivial
  | cons node rest ih =>
    obtain ⟨hback, hforward, htail⟩ := h
    refine ⟨?_, ?_, ih (fun n hn => hnext n (by simp [hn])) (fun n hn => hprev n (by simp [hn])) htail⟩
    · rw [hprev node (by simp), hback]
    · rw [hnext node (by simp), hforward]

/-- Redirecting the forward link of the last node changes only where the
segment ends. -/
theorem Segment.set_after {A : Type} [DecidableEq A] {next prev : A → Option A} {before after target : Option A}
    {front : List A} {last : A} (hfresh : last ∉ front)
    (h : Segment next prev before (front ++ [last]) after) :
    Segment (Function.update next last target) prev before (front ++ [last]) target := by
  rw [Segment.append] at h ⊢
  obtain ⟨hfront, hlast⟩ := h
  refine ⟨hfront.congr (fun n hn => ?_) (fun _ _ => rfl), ?_⟩
  · rw [Function.update_of_ne (ne_of_mem_of_not_mem hn hfresh)]
  · exact ⟨hlast.1, by simp, trivial⟩

/-- Redirecting the backward link of the first node changes only where the
segment starts. -/
theorem Segment.set_before {A : Type} [DecidableEq A] {next prev : A → Option A} {before after target : Option A}
    {first : A} {rest : List A} (hfresh : first ∉ rest)
    (h : Segment next prev before (first :: rest) after) :
    Segment next (Function.update prev first target) target (first :: rest) after := by
  obtain ⟨_, hforward, htail⟩ := h
  refine ⟨by simp, hforward, htail.congr (fun _ _ => rfl) (fun n hn => ?_)⟩
  rw [Function.update_of_ne (ne_of_mem_of_not_mem hn hfresh)]

private theorem last_not_mem {A : Type} {front : List A} {last : A} (h : (front ++ [last]).Nodup) :
    last ∉ front :=
  fun hmem => (List.nodup_append.mp h).2.2 last hmem last (by simp) rfl

/-- Linking a fresh node behind the last one extends a complete segment. -/
theorem Segment.append_node {A : Type} [DecidableEq A] {next prev : A → Option A} {nodes : List A} {node : A}
    (hfresh : node ∉ nodes) (hnodup : nodes.Nodup) (h : Segment next prev none nodes none) :
    Segment (Function.update (relink next nodes.getLast? (some node)) node none)
      (Function.update prev node nodes.getLast?) none (nodes ++ [node]) none := by
  rw [Segment.append]
  refine ⟨?_, ⟨by simp, by simp, trivial⟩⟩
  suffices hnodes : Segment (relink next nodes.getLast? (some node)) prev none nodes (some node) by
    refine hnodes.congr (fun n hn => ?_) (fun n hn => ?_) <;>
      rw [Function.update_of_ne (ne_of_mem_of_not_mem hn hfresh)]
  rcases List.eq_nil_or_concat' nodes with rfl | ⟨front, last, rfl⟩
  · trivial
  · simpa using h.set_after (last_not_mem hnodup)

/-- Linking the neighbours of a node with each other removes it from a
complete segment. -/
theorem Segment.remove_node {A : Type} [DecidableEq A] {next prev : A → Option A} {front back : List A} {node : A}
    (hnodup : (front ++ node :: back).Nodup) (h : Segment next prev none (front ++ node :: back) none) :
    Segment (relink next front.getLast? back.head?) (relink prev back.head? front.getLast?) none
      (front ++ back) none := by
  rw [Segment.append] at h ⊢
  obtain ⟨hfront, _, _, hback⟩ := h
  obtain ⟨hfrontNodup, hbackNodup, hdisjoint⟩ := List.nodup_append.mp hnodup
  simp only [List.nodup_cons] at hbackNodup
  constructor
  · suffices hlinked : Segment (relink next front.getLast? back.head?) prev none front back.head? by
      rw [Option.or_none]
      refine hlinked.congr (fun _ _ => rfl) (fun n hn => relink_of_ne (fun heq => ?_))
      exact hdisjoint n hn n (List.mem_cons_of_mem _ (List.mem_of_mem_head? heq)) rfl
    rcases List.eq_nil_or_concat' front with rfl | ⟨init, last, rfl⟩
    · trivial
    · simpa using hfront.set_after (last_not_mem hfrontNodup)
  · suffices hlinked : Segment next (relink prev back.head? front.getLast?) front.getLast? back none by
      rw [Option.or_none]
      refine hlinked.congr (fun n hn => relink_of_ne (fun heq => ?_)) (fun _ _ => rfl)
      exact hdisjoint n (List.mem_of_getLast? heq) n (List.mem_cons_of_mem _ hn) rfl
    cases back with
    | nil => trivial
    | cons first rest => simpa using hback.set_before (List.nodup_cons.mp hbackNodup.2).1

/-- A segment read from its end: the two links change places. -/
theorem Segment.reverse {A : Type} {next prev : A → Option A} {before after : Option A} {nodes : List A}
    (h : Segment next prev before nodes after) : Segment prev next after nodes.reverse before := by
  induction nodes generalizing before with
  | nil => trivial
  | cons node rest ih =>
    obtain ⟨hback, hforward, htail⟩ := h
    rw [List.reverse_cons, Segment.append]
    refine ⟨ih htail, ?_, ?_, trivial⟩
    · rw [hforward, List.getLast?_reverse]
    · simpa using hback

/-- Following the forward links of a complete segment enumerates it. -/
theorem Segment.follow_eq {A : Type} {next prev : A → Option A} {before : Option A} {nodes : List A}
    (h : Segment next prev before nodes none) {fuel : Nat} (hfuel : nodes.length ≤ fuel) :
    follow next fuel nodes.head? = nodes := by
  induction nodes generalizing before fuel with
  | nil => cases fuel <;> rfl
  | cons node rest ih =>
    obtain ⟨_, hforward, htail⟩ := h
    cases fuel with
    | zero => simp at hfuel
    | succ fuel =>
      simp only [List.head?_cons, follow, hforward, Option.or_none]
      rw [ih htail (by simpa using hfuel)]

/-- A walk that stops before its fuel is used up has met all nodes. -/
theorem follow_of_length_lt {A : Type} {next : A → Option A} {fuel : Nat} {first : Option A}
    (h : (follow next fuel first).length < fuel) (more : Nat) :
    follow next (fuel + more) first = follow next fuel first := by
  induction fuel generalizing first with
  | zero => cases h
  | succ fuel ih =>
    cases first with
    | none =>
      rw [Nat.add_right_comm]
      rfl
    | some node =>
      rw [Nat.add_right_comm]
      simp only [follow, List.length_cons, Nat.add_lt_add_iff_right] at h ⊢
      rw [ih h]

/-- More fuel only makes a walk longer. -/
theorem follow_begins {A : Type} (next : A → Option A) (fuel more : Nat) (first : Option A) :
    follow next fuel first <+: follow next (fuel + more) first := by
  induction fuel generalizing first with
  | zero => exact List.nil_prefix
  | succ fuel ih =>
    cases first with
    | none =>
      rw [Nat.add_right_comm]
      exact List.prefix_rfl
    | some node =>
      rw [Nat.add_right_comm]
      simp only [follow]
      exact List.prefix_cons_inj node |>.mpr (ih (next node))

/-- A walk depends only on the links of the nodes that it may meet. -/
theorem follow_congr {A : Type} {next next' : A → Option A} {P : A → Prop} (hclosed : ∀ node successor, P node →
    next node = some successor → P successor) (hsame : ∀ node, P node → next' node = next node) (fuel : Nat)
    {first : Option A} (hfirst : ∀ node, first = some node → P node) :
    follow next' fuel first = follow next fuel first := by
  induction fuel generalizing first with
  | zero => rfl
  | succ fuel ih =>
    cases first with
    | none => rfl
    | some node =>
      have hnode := hfirst node rfl
      simp only [follow, hsame node hnode]
      rw [ih (fun successor hnext => hclosed node successor hnode hnext)]

/-- The nodes of a walk along which a rank grows are in the order of their ranks. -/
theorem follow_pairwise {A : Type} {next : A → Option A} {P : A → Prop} {rank : A → Nat}
    (hclosed : ∀ node successor, P node → next node = some successor → P successor ∧ rank node < rank successor)
    (fuel : Nat) {first : Option A} (hfirst : ∀ node, first = some node → P node) :
    (follow next fuel first).Pairwise (fun node later => rank node < rank later) ∧
      ∀ node, first = some node → ∀ later ∈ follow next fuel first, rank node ≤ rank later := by
  induction fuel generalizing first with
  | zero => exact ⟨List.Pairwise.nil, nofun⟩
  | succ fuel ih =>
    cases first with
    | none => exact ⟨List.Pairwise.nil, nofun⟩
    | some node =>
      have hnode := hfirst node rfl
      obtain ⟨hpairwise, hbound⟩ := ih (fun successor hnext => (hclosed node successor hnode hnext).1)
      have hlater : ∀ later ∈ follow next fuel (next node), rank node < rank later := by
        intro later hmem
        cases hnext : next node with
        | none =>
          rw [hnext] at hmem
          cases fuel <;> cases hmem
        | some successor =>
          have hless := (hclosed node successor hnode hnext).2
          have hle := hbound successor hnext later hmem
          omega
      refine ⟨List.pairwise_cons.mpr ⟨hlater, hpairwise⟩, ?_⟩
      intro other heq later hmem
      obtain rfl := Option.some.inj heq
      cases List.mem_cons.mp hmem with
      | inl hsame => exact Nat.le_of_eq (congrArg rank hsame.symm)
      | inr hrest => exact Nat.le_of_lt (hlater later hrest)

/-- The nodes from `first` on, up to the end of the links. -/
def Walk {A : Type} (next : A → Option A) : Option A → List A → Prop
  | first, [] => first = none
  | first, node :: rest => first = some node ∧ Walk next (next node) rest

theorem Walk.follow_eq {A : Type} {next : A → Option A} {first : Option A} {nodes : List A}
    (h : Walk next first nodes) {fuel : Nat} (hfuel : nodes.length ≤ fuel) : follow next fuel first = nodes := by
  induction nodes generalizing first fuel with
  | nil =>
    subst h
    cases fuel <;> rfl
  | cons node rest ih =>
    obtain ⟨rfl, hrest⟩ := h
    cases fuel with
    | zero => cases hfuel
    | succ fuel =>
      simp only [follow]
      rw [ih hrest (by simpa using hfuel)]

/-- A walk that stops before its fuel is used up comes to the end of the links. -/
theorem walk_follow {A : Type} {next : A → Option A} {fuel : Nat} {first : Option A}
    (h : (follow next fuel first).length < fuel) : Walk next first (follow next fuel first) := by
  induction fuel generalizing first with
  | zero => cases h
  | succ fuel ih =>
    cases first with
    | none => rfl
    | some node =>
      simp only [follow, List.length_cons, Nat.add_lt_add_iff_right] at h ⊢
      exact ⟨rfl, ih h⟩

/-- Nodes in another order are not met by the same walk. -/
theorem Walk.unique {A : Type} {next : A → Option A} {first : Option A} {nodes others : List A}
    (h : Walk next first nodes) (hother : Walk next first others) : nodes = others := by
  induction nodes generalizing first others with
  | nil =>
    cases others with
    | nil => rfl
    | cons other rest =>
      rw [show first = none from h] at hother
      cases hother.1
  | cons node rest ih =>
    obtain ⟨rfl, hrest⟩ := h
    cases others with
    | nil => cases hother
    | cons other others =>
      obtain ⟨heq, hothers⟩ := hother
      obtain rfl := Option.some.inj heq
      rw [ih hrest hothers]

/-- A complete segment is a walk over its forward links. -/
theorem Segment.walk {A : Type} {next prev : A → Option A} {before : Option A} {nodes : List A}
    (h : Segment next prev before nodes none) : Walk next nodes.head? nodes := by
  induction nodes generalizing before with
  | nil => rfl
  | cons node rest ih =>
    obtain ⟨_, hforward, htail⟩ := h
    refine ⟨rfl, ?_⟩
    rw [hforward, Option.or_none]
    exact ih htail

/-- Taking a node out of a walk. -/
theorem Walk.filter {A : Type} [DecidableEq A] {next next' : A → Option A} {first : Option A} {nodes : List A}
    {node : A} (h : Walk next first nodes) (hnodup : nodes.Nodup)
    (hnext : ∀ other ∈ nodes, other ≠ node → next' other = if next other = some node then next node else next other) :
    Walk next' (if first = some node then next node else first) (nodes.filter (· ≠ node)) := by
  induction nodes generalizing first with
  | nil =>
    rw [show first = none from h]
    exact rfl
  | cons head rest ih =>
    obtain ⟨rfl, hrest⟩ := h
    obtain ⟨hfresh, hnodup⟩ := List.nodup_cons.mp hnodup
    obtain ⟨hhead, hothers⟩ := List.forall_mem_cons.mp hnext
    have hwalk := ih hrest hnodup hothers
    by_cases hsame : head = node
    · subst hsame
      rw [if_pos rfl, List.filter_cons_of_neg (by simp)]
      rwa [if_neg] at hwalk
      intro hself
      cases rest with
      | nil =>
        rw [hself] at hrest
        cases hrest
      | cons successor others =>
        rw [hself] at hrest
        cases hrest.1
        exact hfresh (List.mem_cons_self ..)
    · rw [if_neg (fun heq => hsame (Option.some.inj heq)), List.filter_cons_of_pos (by simpa using hsame)]
      refine ⟨rfl, ?_⟩
      rw [hhead hsame]
      exact hwalk

theorem Walk.congr {A : Type} {next next' : A → Option A} {first : Option A} {nodes : List A}
    (h : Walk next first nodes) (hsame : ∀ node ∈ nodes, next' node = next node) : Walk next' first nodes := by
  induction nodes generalizing first with
  | nil => exact h
  | cons head rest ih =>
    obtain ⟨rfl, hrest⟩ := h
    obtain ⟨hhead, hothers⟩ := List.forall_mem_cons.mp hsame
    refine ⟨rfl, ?_⟩
    rw [hhead]
    exact ih hrest hothers

/-- A walk ends at a node that has no successor. -/
theorem Walk.last {A : Type} {next : A → Option A} {first : Option A} {nodes : List A} {node : A}
    (h : Walk next first nodes) (hnode : node ∈ nodes) (hend : next node = none) : nodes.getLast? = some node := by
  induction nodes generalizing first with
  | nil => cases hnode
  | cons head rest ih =>
    obtain ⟨rfl, hrest⟩ := h
    obtain rfl | hmem := List.mem_cons.mp hnode
    · rw [hend] at hrest
      cases rest with
      | nil => rfl
      | cons _ _ => cases hrest.1
    · rw [List.getLast?_cons, ih hrest hmem]
      rfl

/-- Linking a node behind the last one of a walk. -/
theorem Walk.append {A : Type} {next next' : A → Option A} {first : Option A} {nodes : List A} {last node : A}
    (h : Walk next first nodes) (hlast : nodes.getLast? = some last) (hnode : next' node = none)
    (hlink : next' last = some node) (hsame : ∀ other ∈ nodes, other ≠ last → next' other = next other)
    (hnodup : nodes.Nodup) : Walk next' first (nodes ++ [node]) := by
  induction nodes generalizing first with
  | nil => cases hlast
  | cons head rest ih =>
    obtain ⟨rfl, hrest⟩ := h
    obtain ⟨hfresh, hnodup⟩ := List.nodup_cons.mp hnodup
    cases rest with
    | nil =>
      obtain rfl : head = last := Option.some.inj hlast
      exact ⟨rfl, hlink, hnode⟩
    | cons successor others =>
      rw [List.getLast?_cons_cons] at hlast
      have hne : head ≠ last := fun heq => hfresh (heq ▸ List.mem_of_getLast? hlast)
      refine ⟨rfl, ?_⟩
      rw [hsame head (List.mem_cons_self ..) hne]
      exact ih hrest hlast (fun other hother => hsame other (List.mem_cons_of_mem _ hother)) hnodup

/-- A node of a walk is its first one or follows another one. -/
theorem Walk.mem_cases {A : Type} {next : A → Option A} {first : Option A} {nodes : List A} {node : A}
    (h : Walk next first nodes) (hnode : node ∈ nodes) : first = some node ∨
    ∃ other ∈ nodes, next other = some node := by
  induction nodes generalizing first with
  | nil => cases hnode
  | cons head rest ih =>
    obtain ⟨rfl, hrest⟩ := h
    obtain rfl | hmem := List.mem_cons.mp hnode
    · exact Or.inl rfl
    · obtain hfirst | ⟨other, hother, hlink⟩ := ih hrest hmem
      · exact Or.inr ⟨head, List.mem_cons_self .., hfirst⟩
      · exact Or.inr ⟨other, List.mem_cons_of_mem _ hother, hlink⟩

end linked_list
