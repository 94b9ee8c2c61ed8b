import UniversalFencingHub.Threads.Selector

namespace ufh

namespace State

variable {Buf : Type} {before after state : State Buf} {place : ClientPtr → Place} {stamp : ClientPtr → Nat}
  {client : ClientPtr} {strict : Prop}

/-- A client with a fresh descriptor is taken from the pool. -/
theorem Interest.accept (h : before.Interest place stamp) (hpass : before.selector.before_pass = true)
    (hothers : ∀ other, other ≠ client → after.connector.clients other = before.connector.clients other)
    (hopen : ∀ fd ∈ before.connector.open_fds, fd ∈ after.connector.open_fds)
    (hsets : after.read_fd_set = before.read_fd_set ∧ after.write_fd_set = before.write_fd_set)
    (hcursor : after.selector.cursor = none) (hfree : place client = .free) {target : Place}
    (htarget : target ≠ .queued)
    (hfresh : 0 ≤ (after.connector.clients client).socket_fd →
      (after.connector.clients client).socket_fd ∉ before.connector.open_fds) :
    after.Interest (Function.update place client target) stamp := by
  obtain ⟨hread, hwrite⟩ := hsets
  have hqueued : ∀ other, Function.update place client target other = .queued ↔ place other = .queued :=
    Place.update_iff (by simp [hfree]) htarget
  refine ⟨?_, ?_, ?_, ?_, ?_⟩
  · rw [hread]
    exact fun _ fd hfd => (h.read_open hpass fd hfd).imp_right (hopen fd)
  · rw [hwrite]
    exact fun _ fd hfd => (h.write_open hpass fd hfd).imp_right (hopen fd)
  · rw [hread, hwrite]
    intro _ other hused hnotQueued hvalid
    by_cases hsame : other = client
    · rw [hsame] at hvalid ⊢
      have hnew := hfresh hvalid
      constructor
      · intro hmem
        cases h.read_open hpass _ hmem with
        | inl hnone =>
          rw [hnone] at hvalid
          cases hvalid
        | inr hold => exact hnew hold
      · intro hmem
        exact hnew (h.write_open hpass _ hmem).2
    · rw [Function.update_of_ne hsame] at hused hnotQueued
      rw [hothers other hsame] at hvalid ⊢
      exact h.away hpass other hused hnotQueued hvalid
  · intro other hisQueued _
    rw [hqueued] at hisQueued
    have hne : other ≠ client := fun heq => by rw [heq, hfree] at hisQueued; cases hisQueued
    unfold Fits
    rw [hread, hwrite, hothers other hne]
    exact h.fits other hisQueued (Or.inl hpass)
  · intro other hnext
    rw [hcursor] at hnext
    cases hnext

/-- The pass moves on to the successor of the client that it has visited. -/
theorem Interest.advance (h : before.Interest place stamp) (hcursor : before.selector.cursor = some client)
    (hlinked : Linked before.connector.com_queue before.connector.action_queue before.connector.nodes place stamp)
    (haffects : Affects client before.connector after.connector)
    (hsets : after.read_fd_set = before.read_fd_set ∧ after.write_fd_set = before.write_fd_set)
    (hpass : after.selector.before_pass = false)
    (hnext : after.selector.cursor = before.connector.nodes.next client) {place' : ClientPtr → Place}
    (hplace : ∀ other, other ≠ client → place' other = place other) : after.Interest place' stamp := by
  have hqueued := h.cursor client hcursor
  have hsuccessor : ∀ successor, after.selector.cursor = some successor →
      place successor = .queued ∧ stamp client < stamp successor := by
    intro successor hafter
    rw [hnext] at hafter
    obtain ⟨hplaced, _, hless⟩ := hlinked.forward client successor hqueued hafter
    exact ⟨hplaced, hless⟩
  refine ⟨?_, ?_, ?_, ?_, ?_⟩
  · intro hfalse
    rw [hpass] at hfalse
    cases hfalse
  · intro hfalse
    rw [hpass] at hfalse
    cases hfalse
  · intro hfalse
    rw [hpass] at hfalse
    cases hfalse
  · intro other hother hvisit
    rw [hpass] at hvisit
    obtain ⟨successor, hafter, hle⟩ := hvisit.resolve_left (by simp)
    have hless := (hsuccessor successor hafter).2
    have hne : other ≠ client := fun heq => by rw [heq] at hle; omega
    rw [hplace other hne] at hother
    unfold Fits
    rw [hsets.1, hsets.2, haffects.others other hne]
    exact h.fits other hother (Or.inr ⟨client, hcursor, by omega⟩)
  · intro other hafter
    obtain ⟨hplaced, hless⟩ := hsuccessor other hafter
    have hne : other ≠ client := fun heq => by rw [heq] at hless; omega
    rw [hplace other hne, hplaced]

theorem after_accept_facts (state : State Buf) :
    state.after_accept.holding = none ∧ state.after_accept.in_com_section = false ∧ state.after_accept.cursor = none ∧
      state.after_accept.before_pass = true ∧ state.after_accept.looping = true := by
  cases after_accept_cases state with
  | inl hnow => rw [hnow]; exact ⟨rfl, rfl, rfl, rfl, rfl⟩
  | inr hnow => rw [hnow]; exact ⟨rfl, rfl, rfl, rfl, rfl⟩

/-- Notifying a worker changes neither what it holds nor where it may be. -/
theorem notify_eq {target : Option WorkerId} (hpossible : state.notify_possible target) :
    ∃ workers, state.notify target = { state with workers } ∧
      (∀ id, (workers id).holding = (state.workers id).holding) ∧
      ∀ id, (workers id).in_com_section = (state.workers id).in_com_section := by
  cases target with
  | none => exact ⟨state.workers, rfl, fun _ => rfl, fun _ => rfl⟩
  | some id =>
    have hasleep : state.workers id = .asleep := hpossible
    refine ⟨Function.update state.workers id .locking, rfl, ?_, ?_⟩
    · intro other
      by_cases hsame : other = id
      · rw [hsame, Function.update_self, hasleep]
        rfl
      · rw [Function.update_of_ne hsame]
    · intro other
      by_cases hsame : other = id
      · rw [hsame, Function.update_self, hasleep]
        rfl
      · rw [Function.update_of_ne hsame]

section

variable [CharBuffer Buf]

theorem Invariant.accept [LawfulCharBuffer Buf] (h : Invariant strict state place stamp)
    (hposition : state.selector = .accept) {fd : Int} (hpossible : state.accept_possible fd) :
    (state.accept fd).Sound strict := by
  have hlooping : state.selector.looping = true := by rw [hposition]; rfl
  have hpass : state.selector.before_pass = true := by rw [hposition]; rfl
  obtain ⟨hholding, hsection, hcursor, _, _⟩ := after_accept_facts state
  unfold State.accept
  cases haccept : state.connector.accept fd with
  | none =>
    simp only
    refine h.selector_silent
      ⟨rfl, rfl, rfl, rfl, fun _ => hpass, fun client hnext => ?_, fun _ => hlooping⟩ rfl ?_
      (h.selector_outside rfl rfl hsection)
    · rw [show state.after_accept.cursor = some client from hnext] at hcursor
      cases hcursor
    · rw [hholding, hposition]
      rfl
  | some accepted =>
    obtain ⟨client, connector⟩ := accepted
    obtain ⟨hfree, hconsistent, _, hfd, hothers, hopen, hcom, hnodes⟩ := h.consistent.accept hpossible haccept
    simp only
    have hnone : state.holding .selector = none := by
      change state.selector.holding = none
      rw [hposition]
      rfl
    refine ⟨_, stamp, hconsistent, ?_, h.selector_outside rfl rfl rfl, ⟨?_, ?_⟩, ?_, ?_⟩
    · exact h.holding.take hnone (by simp [hfree]) rfl (holding_workers rfl)
    · intro own hown hvalid other heq
      by_cases hsame : other = client
      · have hopenOwn := (h.own.looping hlooping own hown).2
        rw [hsame] at heq
        rw [hfd] at heq
        cases hpossible with
        | inl hnoFd =>
          rw [← heq, hnoFd] at hvalid
          cases hvalid
        | inr hnew => exact hnew.2 (heq ▸ hopenOwn)
      · rw [hothers other hsame] at heq
        exact h.own.apart own hown hvalid other heq
    · intro _ own hown
      obtain ⟨hvalid, hopenOwn⟩ := h.own.looping hlooping own hown
      exact ⟨hvalid, hopen own hopenOwn⟩
    · have hfresh : 0 ≤ (connector.clients client).socket_fd →
          (connector.clients client).socket_fd ∉ state.connector.open_fds := by
        intro hvalid
        rw [hfd] at hvalid ⊢
        cases hpossible with
        | inl hnoFd =>
          rw [hnoFd] at hvalid
          cases hvalid
        | inr hnew => exact hnew.2
      apply h.interest.accept hpass
      · exact hothers
      · exact hopen
      · exact ⟨rfl, rfl⟩
      · rfl
      · exact hfree
      · simp
      · exact hfresh
    · intro hs
      have hnotQueued : place client ≠ .queued := by simp [hfree]
      change Complete connector.com_queue connector.nodes _
      rw [hcom, hnodes]
      exact (h.complete hs).move hnotQueued (by simp) (by simp)

/-- The accepted client joins `com_queue`. -/
theorem Invariant.accept_add (h : Invariant strict state place stamp)
    (hposition : state.selector = .accept_add client) :
    State.Sound strict
      { state with
        connector := state.connector.com_add_last client
        com_queue_lock := none
        selector := state.after_accept } := by
  have hlooping : state.selector.looping = true := by rw [hposition]; rfl
  have hpass : state.selector.before_pass = true := by rw [hposition]; rfl
  have hinside : state.selector.in_com_section = true := by rw [hposition]; rfl
  obtain ⟨hholding, hsection, hcursor, _, _⟩ := after_accept_facts state
  have hholds : state.holding .selector = some (client, .accepted) := congrArg SelectorPosition.holding hposition
  have hheld := (h.holding _ _ _).mp hholds
  have hoff : (place client).OffLists := by rw [hheld]; trivial
  have hsession := h.consistent.sessions.session client
  rw [hheld] at hsession
  obtain ⟨begun, hawaits⟩ := hsession
  obtain ⟨stamp', hconsistent⟩ := h.consistent.com_add_last hoff (Or.inl ⟨begun, hawaits⟩)
  refine ⟨_, stamp', hconsistent, ?_, h.selector_releases rfl hinside hsection,
      ⟨h.own.apart, fun _ => h.own.looping hlooping⟩,
    ?_, ?_⟩
  · exact h.holding.release hholds hholding (by simp) (holding_workers rfl)
  · refine h.interest.queue ⟨rfl, rfl⟩ ⟨rfl, rfl⟩ (fun _ => hpass) hcursor (fun _ => ?_)
    refine ⟨fun _ => hawaits.receiving.io_state, fun hmem => ?_⟩
    have hvalid := (h.interest.write_open hpass _ hmem).1
    exact absurd hmem (h.interest.away hpass client (by simp [hheld]) (by simp [hheld]) hvalid).2
  · intro hs
    exact (h.complete hs).add_last (by simp [hheld])

theorem Invariant.pass_first (h : Invariant strict state place stamp) (hposition : state.selector = .pass_first) :
    State.Sound strict { state with selector := .pass state.connector.com_queue.get_first } := by
  have hlooping : state.selector.looping = true := by rw [hposition]; rfl
  have hpass : state.selector.before_pass = true := by rw [hposition]; rfl
  have hinside : state.selector.in_com_section = true := by rw [hposition]; rfl
  refine ⟨place, stamp, h.consistent, ?_, h.selector_inside rfl rfl hinside,
      ⟨h.own.apart, fun _ => h.own.looping hlooping⟩,
    ⟨nofun, nofun, nofun, ?_, ?_⟩, h.complete⟩
  · exact h.still_holding (by rw [hposition]; rfl) rfl
  · intro client hqueued _
    exact h.interest.fits client hqueued (Or.inl hpass)
  · intro client hcursor
    exact (h.consistent.linked.head client hcursor).1

theorem visit_eq {result : IoResult} (hpipe : result ≠ .broken_pipe) :
    state.visit client result =
      { state with
        connector := (state.connector.perform_io state.read_fd_set state.write_fd_set client result).1
        selector :=
          if (state.connector.perform_io state.read_fd_set state.write_fd_set client result).2 then
            .enqueue_lock client (state.connector.nodes.next client)
          else .pass (state.connector.nodes.next client) } := by
  simp only [State.visit, if_neg hpipe]

theorem Invariant.visit [LawfulCharBuffer Buf] (h : Invariant strict state place stamp)
    (hposition : state.selector = .pass (some client)) {result : IoResult}
    (hpossible : (state.connector.clients client).io_possible state.read_fd_set state.write_fd_set result) :
    (state.visit client result).Sound strict := by
  have hlooping : state.selector.looping = true := by rw [hposition]; rfl
  have hinside : state.selector.in_com_section = true := by rw [hposition]; rfl
  have hcursor : state.selector.cursor = some client := by rw [hposition]; rfl
  have hnone : state.holding .selector = none := by
    change state.selector.holding = none
    rw [hposition]
    rfl
  by_cases hpipe : result = .broken_pipe
  · simp only [State.visit, if_pos hpipe]
    exact h.selector_silent (SameView.silent ⟨rfl, rfl, rfl, rfl⟩ rfl) rfl rfl h.com_lock
  · have hqueued := h.interest.cursor client hcursor
    obtain ⟨hread, hwrite⟩ := h.interest.fits client hqueued (Or.inr ⟨client, hcursor, le_rfl⟩)
    obtain ⟨hpending, hrest⟩ := h.consistent.perform_io hqueued hread hwrite hpossible hpipe
    have haffects := affects_perform_io state.connector state.read_fd_set state.write_fd_set client result
    have hremoved : ∀ target, target ≠ .queued → target ≠ .lost →
        Unlinks client state.connector
          (state.connector.perform_io state.read_fd_set state.write_fd_set client result).1 →
        strict → Complete (state.connector.perform_io state.read_fd_set state.write_fd_set client result).1.com_queue
          (state.connector.perform_io state.read_fd_set state.write_fd_set client result).1.nodes
          (Function.update place client target) := by
      intro target htarget hlost hunlinks hs
      rw [hunlinks.1, hunlinks.2.1]
      exact (h.complete hs).remove hqueued htarget hlost
    rw [visit_eq hpipe]
    generalize state.connector.perform_io state.read_fd_set state.write_fd_set client result = performed at *
    obtain ⟨connector, pending⟩ := performed
    simp only at hpending hrest haffects hremoved ⊢
    cases pending with
    | true =>
      obtain ⟨hconsistent, hunlinks⟩ := hpending rfl
      refine ⟨_, stamp, hconsistent, ?_, h.selector_inside rfl rfl hinside,
        h.own.affects haffects rfl (fun _ => hlooping), ?_, hremoved _ (by simp) (by simp) hunlinks⟩
      · exact h.holding.take hnone (by simp [hqueued]) rfl (holding_workers rfl)
      · apply h.interest.advance hcursor h.consistent.linked haffects
        · exact ⟨rfl, rfl⟩
        · rfl
        · rfl
        · exact fun other hother => Function.update_of_ne hother _ _
    | false =>
      have hsame : State.holding { state with connector, selector := .pass (state.connector.nodes.next client) } =
          state.holding := holding_eq (by rw [hposition]; rfl) (fun _ => rfl)
      obtain ⟨hconsistent, hcom, hnodes, _⟩ | ⟨hconsistent, hunlinks⟩ := hrest rfl
      · refine ⟨place, stamp, hconsistent, hsame ▸ h.holding, h.selector_inside rfl rfl hinside,
          h.own.affects haffects rfl (fun _ => hlooping), ?_, ?_⟩
        · apply h.interest.advance hcursor h.consistent.linked haffects
          · exact ⟨rfl, rfl⟩
          · rfl
          · rfl
          · exact fun _ _ => rfl
        · intro hs
          change Complete connector.com_queue connector.nodes place
          rw [hcom, hnodes]
          exact h.complete hs
      · refine ⟨_, stamp, hconsistent, ?_, h.selector_inside rfl rfl hinside,
          h.own.affects haffects rfl (fun _ => hlooping), ?_, hremoved _ (by simp) (by simp) hunlinks⟩
        · exact hsame ▸ h.holding.move (by simp [hqueued]) (by simp)
        · apply h.interest.advance hcursor h.consistent.linked haffects
          · exact ⟨rfl, rfl⟩
          · rfl
          · rfl
          · exact fun other hother => Function.update_of_ne hother _ _

/-- The completed client joins `action_queue`. -/
theorem Invariant.enqueue (h : Invariant strict state place stamp) {next_client : Option ClientPtr}
    {target : Option WorkerId} (hposition : state.selector = .enqueue client next_client)
    (hpossible : state.notify_possible target) : (state.enqueue client next_client target).Sound strict := by
  have hlooping : state.selector.looping = true := by rw [hposition]; rfl
  have hinside : state.selector.in_com_section = true := by rw [hposition]; rfl
  have hholds : state.holding .selector = some (client, .completed) := congrArg SelectorPosition.holding hposition
  have hheld := (h.holding _ _ _).mp hholds
  have hnotified : State.notify_possible { state with connector := state.connector.action_add_last client } target := by
    cases target
    · exact hpossible
    · exact hpossible
  obtain ⟨workers, hnotify, hworkersHolding, hworkersSection⟩ := notify_eq hnotified
  unfold State.enqueue
  simp only [hnotify]
  refine ⟨_, stamp, h.consistent.action_add_last hheld, ?_, ?_, ⟨h.own.apart, fun _ => h.own.looping hlooping⟩, ?_, ?_⟩
  · refine h.holding.release hholds rfl (by simp) (fun other hother => ?_)
    cases other with
    | selector => exact absurd rfl hother
    | worker id => exact hworkersHolding id
  · apply h.com_lock.keep
    intro thread hthread
    cases thread with
    | selector => exact hinside
    | worker id => exact (hworkersSection id).symm.trans hthread
  · have hqueued : ∀ other, Function.update place client .pending other = .queued ↔ place other = .queued :=
      Place.update_iff (by simp [hheld]) (by simp)
    have hcursor : state.selector.cursor = next_client := by rw [hposition]; rfl
    refine ⟨nofun, nofun, nofun, fun other hother hvisit => ?_, fun other hnext => ?_⟩
    · apply h.interest.fits other ((hqueued other).mp hother)
      right
      rw [hcursor]
      exact hvisit.resolve_left nofun
    · apply (hqueued other).mpr
      exact h.interest.cursor other (hcursor.trans hnext)
  · intro hs
    exact (h.complete hs).action_add_last h.consistent.linked (by simp [hheld])

end

end State

end ufh
