import UniversalFencingHub.Threads.Workers

namespace ufh

namespace State

variable {Buf : Type} {before after state : State Buf} {place : ClientPtr → Place} {stamp : ClientPtr → Nat}
  {client : ClientPtr} {strict : Prop}

/-- Outside the loop, and between two rounds of it, the descriptor sets do not matter. -/
theorem Interest.idle (hpass : state.selector.before_pass = false) (hcursor : state.selector.cursor = none) :
    state.Interest place stamp := by
  refine ⟨?_, ?_, ?_, ?_, ?_⟩
  · intro hfalse
    rw [hpass] at hfalse
    cases hfalse
  · intro hfalse
    rw [hpass] at hfalse
    cases hfalse
  · intro hfalse
    rw [hpass] at hfalse
    cases hfalse
  · intro other _ hvisit
    rw [hpass, hcursor] at hvisit
    simp at hvisit
  · intro other hfalse
    rw [hcursor] at hfalse
    cases hfalse

theorem in_com_section_others (hworkers : after.workers = before.workers) (other : Thread) (hother : other ≠ .selector)
    (hinside : after.in_com_section other = true) : before.in_com_section other = true := by
  cases other with
  | selector => exact absurd rfl hother
  | worker id =>
    change (before.workers id).in_com_section = true
    rw [← hworkers]
    exact hinside

theorem holding_workers (hworkers : after.workers = before.workers) (other : Thread) (hother : other ≠ .selector) :
    after.holding other = before.holding other := by
  cases other with
  | selector => exact absurd rfl hother
  | worker id =>
    change (after.workers id).holding = _
    rw [hworkers]
    rfl

theorem mem_interest {operation : IoOp} {fd : Int} (hmem : fd ∈ state.interest operation) :
    ∃ client ∈ state.com_clients, (state.connector.clients client).io_state = operation ∧
      (state.connector.clients client).socket_fd = fd := by
  obtain ⟨client, hclient, hfd⟩ := List.mem_map.mp hmem
  obtain ⟨hqueued, hoperation⟩ := List.mem_filter.mp hclient
  exact ⟨client, hqueued, by simpa using hoperation, hfd⟩

theorem mem_build_read {fd : Int} (hmem : fd ∈ state.build.read_fd_set) :
    fd = state.trigger_read ∨ fd = state.socket_fd ∨ fd ∈ state.interest .READ := by
  simp only [State.build, List.mem_cons, List.mem_append] at hmem
  rcases hmem with htrigger | hsocket | hinterest
  · exact Or.inl htrigger
  · split at hsocket
    · exact Or.inr (Or.inl (List.mem_singleton.mp hsocket))
    · cases hsocket
  · exact Or.inr (Or.inr hinterest)

theorem build_selector (state : State Buf) : state.build.selector = .cleanup_socket ∨ state.build.selector = .select :=
  ite_eq_or_eq _ _ _

/-- The kernel takes descriptors out of the sets. -/
theorem Interest.shrink (h : before.Interest place stamp) (hconnector : after.connector = before.connector)
    (hread : after.read_fd_set ⊆ before.read_fd_set) (hwrite : after.write_fd_set ⊆ before.write_fd_set)
    (hpass : before.selector.before_pass = true) (hcursor : after.selector.cursor = none) :
    after.Interest place stamp := by
  refine ⟨?_, ?_, ?_, ?_, ?_⟩
  · rw [hconnector]
    exact fun _ fd hfd => h.read_open hpass fd (hread hfd)
  · rw [hconnector]
    exact fun _ fd hfd => h.write_open hpass fd (hwrite hfd)
  · rw [hconnector]
    intro _ client hfree hnotQueued hvalid
    obtain ⟨hnotRead, hnotWrite⟩ := h.away hpass client hfree hnotQueued hvalid
    exact ⟨fun hmem => hnotRead (hread hmem), fun hmem => hnotWrite (hwrite hmem)⟩
  · intro client hqueued _
    obtain ⟨hfitsRead, hfitsWrite⟩ := h.fits client hqueued (Or.inl hpass)
    unfold Fits
    rw [hconnector]
    exact ⟨fun hmem => hfitsRead (hread hmem), fun hmem => hfitsWrite (hwrite hmem)⟩
  · intro client hnext
    rw [hcursor] at hnext
    cases hnext

theorem after_accept_cases (state : State Buf) : state.after_accept = .drain ∨ state.after_accept = .pass_lock :=
  ite_eq_or_eq _ _ _

theorem select_selector (state : State Buf) (ready_read ready_write : List Int) :
    (state.select ready_read ready_write).selector = .accept ∨
      (state.select ready_read ready_write).selector = .drain ∨
      (state.select ready_read ready_write).selector = .pass_lock := by
  simp only [State.select]
  split
  · exact Or.inl rfl
  · exact Or.inr (after_accept_cases _)

section

variable [CharBuffer Buf]

/-- The selector moves on with the same clients in its hands. -/
theorem Invariant.still_holding (h : Invariant strict before place stamp)
    (hselector : after.selector.holding = before.selector.holding) (hworkers : after.workers = before.workers) :
    Holding after.holding place := by
  have hsame : after.holding = before.holding := holding_eq hselector (fun id => by rw [hworkers])
  exact hsame ▸ h.holding

/-- The selector stays outside the protected section. -/
theorem Invariant.selector_outside (h : Invariant strict before place stamp) (hworkers : after.workers = before.workers)
    (howner : after.com_queue_lock = before.com_queue_lock) (hselector : after.selector.in_com_section = false) :
    Exclusive after.com_queue_lock after.in_com_section := by
  rw [howner]
  apply h.com_lock.keep
  intro thread hinside
  by_cases hsame : thread = .selector
  · rw [hsame] at hinside
    exact absurd hinside (by change ¬ after.selector.in_com_section = true; simp [hselector])
  · exact in_com_section_others hworkers thread hsame hinside

/-- The selector stays inside the protected section. -/
theorem Invariant.selector_inside (h : Invariant strict before place stamp) (hworkers : after.workers = before.workers)
    (howner : after.com_queue_lock = before.com_queue_lock) (hselector : before.selector.in_com_section = true) :
    Exclusive after.com_queue_lock after.in_com_section := by
  rw [howner]
  apply h.com_lock.keep
  intro thread hinside
  by_cases hsame : thread = .selector
  · rw [hsame]
    exact hselector
  · exact in_com_section_others hworkers thread hsame hinside

theorem Invariant.selector_acquires (h : Invariant strict before place stamp)
    (hworkers : after.workers = before.workers)
    (hfree : before.com_queue_lock = none) : Exclusive (some .selector) after.in_com_section := by
  have hlock := h.com_lock
  rw [hfree] at hlock
  exact hlock.acquire (in_com_section_others hworkers)

theorem Invariant.selector_releases (h : Invariant strict before place stamp)
    (hworkers : after.workers = before.workers)
    (hinside : before.selector.in_com_section = true) (hleft : after.selector.in_com_section = false) :
    Exclusive none after.in_com_section := by
  have hselector : before.in_com_section .selector = true := hinside
  exact h.com_lock.release hselector hleft (in_com_section_others hworkers)

/-- The selector moves between positions at which it holds the same. -/
theorem Invariant.selector_silent (h : Invariant strict before place stamp) (hsilent : Silent before after)
    (hworkers : after.workers = before.workers) (hholding : after.selector.holding = before.selector.holding)
    (hlock : Exclusive after.com_queue_lock after.in_com_section) : after.Sound strict := by
  refine ⟨place, stamp, h.silent hsilent (holding_eq hholding ?_) hlock⟩
  intro id
  rw [hworkers]

theorem Invariant.init (h : Invariant strict state place stamp) {socket_fd trigger_read trigger_write : Int}
    {failed : Bool} (hposition : state.selector = .init)
    (hpossible : state.init_possible socket_fd trigger_read trigger_write failed) :
    (state.init socket_fd trigger_read trigger_write failed).Sound strict := by
  obtain ⟨hfresh, _, hopened⟩ := hpossible
  have hposition' : (state.init socket_fd trigger_read trigger_write failed).selector = .cleanup_socket ∨
      (state.init socket_fd trigger_read trigger_write failed).selector = .enable_wakeup ∧ failed = false := by
    unfold State.init
    cases failed
    · exact Or.inr ⟨rfl, rfl⟩
    · exact Or.inl rfl
  refine ⟨place, stamp, ?_, ?_, ?_, ⟨?_, ?_⟩, ?_, h.complete⟩
  · apply h.consistent.descriptors
    intro client _ hmem
    exact List.mem_append_right _ hmem
  · refine h.still_holding ?_ rfl
    rw [hposition]
    rcases hposition' with hnow | ⟨hnow, _⟩
    · rw [hnow]
      rfl
    · rw [hnow]
      rfl
  · refine h.selector_outside rfl rfl ?_
    rcases hposition' with hnow | ⟨hnow, _⟩
    · rw [hnow]
      rfl
    · rw [hnow]
      rfl
  · intro fd hfd hvalid client heq
    cases hfresh fd hfd with
    | inl hnone =>
      rw [hnone] at hvalid
      cases hvalid
    | inr hnew =>
      cases h.consistent.sockets.valid client with
      | inl hnone =>
        rw [← heq] at hvalid
        change 0 ≤ (state.connector.clients client).socket_fd at hvalid
        rw [hnone] at hvalid
        cases hvalid
      | inr hclient => exact hnew.2 (heq ▸ hclient.2)
  · intro hlooping fd hfd
    rcases hposition' with hnow | ⟨_, hsucceeded⟩
    · rw [hnow] at hlooping
      cases hlooping
    · obtain ⟨hsocket, hread, hwrite⟩ := hopened hsucceeded
      have hvalid : 0 ≤ fd := by
        simp only [own_fds, State.init, List.mem_cons, List.not_mem_nil, or_false] at hfd
        rcases hfd with rfl | rfl | rfl
        · exact hsocket
        · exact hread
        · exact hwrite
      refine ⟨hvalid, List.mem_append_left _ (List.mem_filter.mpr ⟨hfd, ?_⟩)⟩
      have hne : fd ≠ sys.FD_NONE := fun heq => by rw [heq] at hvalid; cases hvalid
      simpa using hne
  · apply Interest.idle
    · rcases hposition' with hnow | ⟨hnow, _⟩
      · rw [hnow]
        rfl
      · rw [hnow]
        rfl
    · rcases hposition' with hnow | ⟨hnow, _⟩
      · rw [hnow]
        rfl
      · rw [hnow]
        rfl

/-- A queued client with an invalid descriptor waits for a message that never comes. -/
theorem queued_socket (h : Consistent state.connector place stamp) (hqueued : place client = .queued) :
    (state.connector.clients client).io_state = .READ ∨
      (state.connector.clients client).io_state = .WRITE ∧ 0 ≤ (state.connector.clients client).socket_fd := by
  have hsession := h.sessions.session client
  rw [hqueued] at hsession
  cases hsession with
  | inl hawaits =>
    obtain ⟨_, hawaits⟩ := hawaits
    exact Or.inl hawaits.receiving.io_state
  | inr howes =>
    obtain ⟨_, _, _, howes⟩ := howes
    exact Or.inr ⟨howes.replying.io_state, howes.socket⟩

/-- A descriptor in the interest of an operation is that of a client waiting for it. -/
theorem interest_client (h : Consistent state.connector place stamp) {operation : IoOp} {fd : Int}
    (hmem : fd ∈ state.interest operation) :
    ∃ client, place client = .queued ∧ (state.connector.clients client).io_state = operation ∧
      (state.connector.clients client).socket_fd = fd ∧ (operation = .WRITE → 0 ≤ fd) ∧
      (fd = sys.FD_NONE ∨ fd ∈ state.connector.open_fds) := by
  obtain ⟨client, hclient, hoperation, hfd⟩ := mem_interest hmem
  have hqueued := h.linked.follow_queued _ client hclient
  refine ⟨client, hqueued, hoperation, hfd, ?_, ?_⟩
  · intro hwrite
    cases queued_socket h hqueued with
    | inl hread =>
      rw [hread, hwrite] at hoperation
      cases hoperation
    | inr hvalid => exact hfd ▸ hvalid.2
  · rw [← hfd]
    exact (h.sockets.valid client).imp_right And.right

/-- The descriptor sets, when they have just been built. -/
theorem Interest.build (hown : state.OwnDescriptors) (hlooping : state.selector.looping = true)
    (h : Consistent state.connector place stamp) : state.build.Interest place stamp := by
  have htrigger := hown.looping hlooping state.trigger_read (by simp [own_fds])
  have hsocket := hown.looping hlooping state.socket_fd (by simp [own_fds])
  have hread : ∀ client, 0 ≤ (state.connector.clients client).socket_fd →
      (state.connector.clients client).socket_fd ∈ state.build.read_fd_set →
      (state.connector.clients client).socket_fd ∈ state.interest .READ := by
    intro client _ hmem
    rcases mem_build_read hmem with heq | heq | hinterest
    · exact absurd heq (hown.apart _ (by simp [own_fds]) htrigger.1 client)
    · exact absurd heq (hown.apart _ (by simp [own_fds]) hsocket.1 client)
    · exact hinterest
  refine ⟨?_, ?_, ?_, ?_, ?_⟩
  · intro _ fd hfd
    rcases mem_build_read hfd with rfl | rfl | hinterest
    · exact Or.inr htrigger.2
    · exact Or.inr hsocket.2
    · obtain ⟨_, _, _, _, _, hopen⟩ := interest_client h hinterest
      exact hopen
  · intro _ fd hfd
    obtain ⟨_, _, _, _, hvalid, hopen⟩ := interest_client h (show fd ∈ state.interest .WRITE from hfd)
    have hvalid := hvalid rfl
    cases hopen with
    | inl hnone =>
      rw [hnone] at hvalid
      cases hvalid
    | inr hopen => exact ⟨hvalid, hopen⟩
  · intro _ client _ hnotQueued hvalid
    have hdifferent : ∀ operation, (state.connector.clients client).socket_fd ∉ state.interest operation := by
      intro operation hmem
      obtain ⟨other, hqueued, _, hfd, _, _⟩ := interest_client h hmem
      have hsame := h.sockets.distinct client other hvalid hfd.symm
      exact hnotQueued (hsame ▸ hqueued)
    exact ⟨fun hmem => hdifferent .READ (hread client hvalid hmem), hdifferent .WRITE⟩
  · intro client hqueued _
    constructor
    · intro hmem
      cases queued_socket h hqueued with
      | inl hstate => exact hstate
      | inr hwrite =>
        obtain ⟨other, _, hstate, hfd, _, _⟩ := interest_client h (hread client hwrite.2 hmem)
        have hsame := h.sockets.distinct client other hwrite.2 hfd.symm
        exact (congrArg (fun c => (state.connector.clients c).io_state) hsame).trans hstate
    · intro hmem
      obtain ⟨other, _, hstate, hfd, hvalid, _⟩ := interest_client h
        (show (state.connector.clients client).socket_fd ∈ state.interest .WRITE from hmem)
      have hsame := h.sockets.distinct client other (hvalid rfl) hfd.symm
      exact (congrArg (fun c => (state.connector.clients c).io_state) hsame).trans hstate
  · intro client hcursor
    cases build_selector state with
    | inl hnow => rw [hnow] at hcursor; cases hcursor
    | inr hnow => rw [hnow] at hcursor; cases hcursor

theorem Invariant.build (h : Invariant strict state place stamp) (hposition : state.selector = .build) :
    state.build.Sound strict := by
  have hlooping : state.selector.looping = true := by rw [hposition]; rfl
  have hinside : state.selector.in_com_section = true := by rw [hposition]; rfl
  refine ⟨place, stamp, h.consistent, ?_, h.selector_releases rfl hinside ?_,
      ⟨h.own.apart, fun _ => h.own.looping hlooping⟩,
    Interest.build h.own hlooping h.consistent, h.complete⟩
  · refine h.still_holding ?_ rfl
    rw [hposition]
    cases build_selector state with
    | inl hnow => rw [hnow]; rfl
    | inr hnow => rw [hnow]; rfl
  · cases build_selector state with
    | inl hnow => rw [hnow]; rfl
    | inr hnow => rw [hnow]; rfl

theorem Invariant.select (h : Invariant strict state place stamp) (hposition : state.selector = .select)
    {ready_read ready_write : List Int} (hpossible : state.select_possible ready_read ready_write) :
    (state.select ready_read ready_write).Sound strict := by
  have hlooping : state.selector.looping = true := by rw [hposition]; rfl
  have hpass : state.selector.before_pass = true := by rw [hposition]; rfl
  have hafter : ∀ position, position = SelectorPosition.accept ∨ position = .drain ∨ position = .pass_lock →
      position.holding = none ∧ position.in_com_section = false ∧ position.cursor = none := by
    rintro position (rfl | rfl | rfl)
    · exact ⟨rfl, rfl, rfl⟩
    · exact ⟨rfl, rfl, rfl⟩
    · exact ⟨rfl, rfl, rfl⟩
  obtain ⟨hholding, hsection, hcursor⟩ := hafter _ (select_selector state ready_read ready_write)
  refine ⟨place, stamp, h.consistent, ?_, h.selector_outside rfl rfl hsection,
    ⟨h.own.apart, fun _ => h.own.looping hlooping⟩, ?_, h.complete⟩
  · refine h.still_holding ?_ rfl
    rw [hposition, hholding]
    rfl
  · exact h.interest.shrink rfl hpossible.1 hpossible.2.1 hpass hcursor

end

end State

end ufh
