import UniversalFencingHub.Server.Run

open transition

namespace ufh

namespace State

variable {Buf : Type} [CharBuffer Buf] {before after : State Buf} {action : Action} {id : WorkerId}

/-- A thread that has ended does nothing more, and a worker stays where it processes a message until
`process_client_message` ends. -/
theorem act_workers_kept (hact : before.act action = some after) (id : WorkerId) :
    (before.workers id = .exited → after.workers id = .exited) ∧
      ∀ client, before.workers id = .process client →
        after.workers id = .process client ∨ ∃ success_flag, action = .worker_process id client success_flag := by
  cases hworker : action.worker with
  | none =>
    obtain hsame | hasleep := act_workers hact hworker id
    · rw [hsame]
      exact ⟨fun hexited => hexited, fun _ hprocess => Or.inl hprocess⟩
    · rw [hasleep]
      exact ⟨nofun, nofun⟩
  | some other =>
    obtain ⟨⟨position, hmoved⟩, hrunning, hprocess⟩ := act_worker hact hworker
    by_cases hsame : id = other
    · subst hsame
      exact ⟨fun hexited => absurd hexited hrunning, fun client hheld => Or.inr (hprocess client hheld)⟩
    · rw [hmoved, Function.update_of_ne hsame]
      exact ⟨fun hexited => hexited, fun _ hheld => Or.inl hheld⟩

/-- The destructor of the thread pool ends after all threads have been joined. -/
theorem act_finished (hact : before.act action = some after) (hselector : action.by_selector = true)
    (hfinished : after.selector = .finished) : ∀ id, after.workers id = .exited := by
  have hnext := act_next hact hselector
  rw [hfinished] at hnext
  generalize before.selector = position at hnext
  cases hnext
  obtain ⟨⟨_, hexited⟩, rfl⟩ := only_if_eq_some.mp hact
  exact hexited

/-- The main thread is at the end of the destructor only when all threads have ended. -/
theorem act_keeps_finished (hact : before.act action = some after)
    (h : before.selector = .finished → ∀ id, before.workers id = .exited) (hfinished : after.selector = .finished) :
    ∀ id, after.workers id = .exited := by
  cases hselector : action.by_selector with
  | true => exact act_finished hact hselector hfinished
  | false =>
    have hsame := (act_aside hact hselector).selector
    exact fun id => (act_workers_kept hact id).1 (h (hsame.symm.trans hfinished) id)

end State

namespace Server

/-- The stages before `ufh_plugin_init` is called. -/
def Stage.before_init : Stage → Bool
  | .arguments => true
  | .load_plugin => true
  | .plugin_init => true
  | _ => false

/-- The stages at which the plugin manager exists. -/
def Stage.has_plugin : Stage → Bool
  | .arguments => false
  | .load_plugin => false
  | .plugin_init => false
  | .destroy_plugin => false
  | .returned => false
  | _ => true

/-- The stages before the first thread is started. -/
def Stage.before_start : Stage → Bool
  | .connector => true
  | .thread_pool => true
  | .start_lock => true
  | stage => stage.before_init

/-- The stages after the thread pool has been destroyed. -/
def Stage.joined : Stage → Bool
  | .destroy_connector => true
  | .destroy_plugin => true
  | .returned => true
  | _ => false

def Stage.is_returned : Stage → Bool
  | .returned => true
  | _ => false

/-- A change of the stage in which the plugin is neither created nor destroyed. -/
def Stage.passes (before after : Stage) : Bool :=
  (!after.has_plugin || before.has_plugin) && (!after.before_init || before.before_init) &&
    (!after.before_start || before.before_start) && !after.is_returned

theorem Stage.passes_iff {before after : Stage} : before.passes after = true ↔
    (after.has_plugin = true → before.has_plugin = true) ∧ (after.before_init = true → before.before_init = true) ∧
      (after.before_start = true → before.before_start = true) ∧ after ≠ .returned := by
  have hreturned : after.is_returned = false ↔ after ≠ .returned := by
    cases after <;> simp [Stage.is_returned]
  simp only [Stage.passes, Bool.and_eq_true, Bool.or_eq_true, Bool.not_eq_true', hreturned, and_assoc]
  rw [← Bool.not_eq_true, ← Bool.not_eq_true, ← Bool.not_eq_true, imp_iff_not_or, imp_iff_not_or, imp_iff_not_or]

namespace Run

variable {Buf : Type} [CharBuffer Buf] {run after : Run Buf} {id : WorkerId} {success : Bool}

/-- What holds in all states of `Server::run`. The plugin manager keeps the plugin in existence, and
a worker that is in the plugin processes a message. -/
structure Invariant (run : Run Buf) : Prop where
  unused : run.stage.before_init = true → run.plugin_calls = []
  absent : run.plugin = none → run.stage.has_plugin = false ∧
    ∃ status, lifetime.Leads run.plugin_calls status ∧ ∀ inside, status ≠ .live inside
  live : ∀ mgr, run.plugin = some mgr → mgr.have_plugin_init = true ∧ run.stage.before_init = false ∧
    run.stage ≠ .returned ∧ lifetime.Leads run.plugin_calls (.live run.calling)
  calling : ∀ id, run.calling id = true → run.Started id ∧ ∃ client, run.state.workers id = .process client
  not_started : run.stage.before_start = true → run.started = 0
  starting : ∀ idx, run.stage = .start idx → run.started = idx
  joined : run.stage.joined = true → run.AllExited
  finished : run.state.selector = .finished → ∀ id, run.state.workers id = .exited

omit [CharBuffer Buf] in
theorem all_exited_of_not_started (h : run.started = 0) : run.AllExited := by
  intro id hstarted
  unfold Started at hstarted
  omega

theorem Invariant.initial (memory : ClientMemory) : (initial Buf memory).Invariant :=
  ⟨fun _ => rfl, fun _ => ⟨rfl, .absent, .nil, nofun⟩, nofun, nofun, fun _ => rfl, nofun, nofun, nofun⟩

omit [CharBuffer Buf] in
/-- Threads that process messages need the plugin manager. -/
theorem Invariant.exists_plugin (h : run.Invariant) {client : ClientPtr} (hstarted : run.Started id)
    (hposition : run.state.workers id = .process client) : ∃ mgr, run.plugin = some mgr := by
  rw [← Option.ne_none_iff_exists']
  intro hnone
  obtain ⟨hplugin, _⟩ := h.absent hnone
  have hjoined : run.AllExited := by
    cases hstage : run.stage with
    | arguments => exact all_exited_of_not_started (h.not_started (by rw [hstage]; rfl))
    | load_plugin => exact all_exited_of_not_started (h.not_started (by rw [hstage]; rfl))
    | plugin_init => exact all_exited_of_not_started (h.not_started (by rw [hstage]; rfl))
    | destroy_plugin => exact h.joined (by rw [hstage]; rfl)
    | returned => exact h.joined (by rw [hstage]; rfl)
    | _ =>
      rw [hstage] at hplugin
      cases hplugin
  have hexited := hjoined id hstarted
  rw [hposition] at hexited
  cases hexited

omit [CharBuffer Buf] in
/-- A step of the main thread that neither creates nor destroys the plugin. -/
theorem Invariant.move (h : run.Invariant) {state : State Buf} {stage : Stage}
    (hworkers : ∀ id, state.workers id = run.state.workers id ∨ run.state.workers id = .asleep)
    (hselector : state.selector = .finished → run.state.selector = .finished) (hpasses : run.stage.passes stage = true)
    (hstart : ∀ idx, stage = .start idx → run.started = idx) (hjoined : stage.joined = true → run.AllExited) :
    { run with state, stage }.Invariant := by
  obtain ⟨hplugin, hinit, hbefore, hreturned⟩ := Stage.passes_iff.mp hpasses
  have hexited : ∀ id, run.state.workers id = .exited → state.workers id = .exited := by
    intro id hbefore
    obtain hsame | hasleep := hworkers id
    · rw [hsame, hbefore]
    · rw [hbefore] at hasleep
      cases hasleep
  refine ⟨fun hstage => h.unused (hinit hstage), fun hnone => ⟨?_, (h.absent hnone).2⟩, fun mgr hsome => ?_,
    fun id hcalling => ?_, fun hstage => h.not_started (hbefore hstage), hstart, fun hstage id hstarted => ?_, ?_⟩
  · rw [← Bool.not_eq_true]
    intro hhas
    have hnot := (h.absent hnone).1
    rw [hplugin hhas] at hnot
    cases hnot
  · obtain ⟨hhave, hstage, _, hleads⟩ := h.live mgr hsome
    refine ⟨hhave, ?_, hreturned, hleads⟩
    rw [← Bool.not_eq_true]
    intro hafter
    rw [hinit hafter] at hstage
    cases hstage
  · obtain ⟨hstarted, client, hposition⟩ := h.calling id hcalling
    refine ⟨hstarted, client, ?_⟩
    obtain hsame | hasleep := hworkers id
    · exact hsame.trans hposition
    · rw [hposition] at hasleep
      cases hasleep
  · exact hexited id (hjoined hstage id hstarted)
  · exact fun hfinished id => hexited id (h.finished (hselector hfinished) id)

omit [CharBuffer Buf] in
/-- A step of the main thread that moves no other thread. -/
theorem Invariant.stage (h : run.Invariant) {stage : Stage} (hpasses : run.stage.passes stage = true)
    (hstart : ∀ idx, stage = .start idx → run.started = idx) (hjoined : stage.joined = true → run.AllExited) :
    { run with stage }.Invariant :=
  h.move (fun _ => Or.inl rfl) (fun hfinished => hfinished) hpasses hstart hjoined

omit [CharBuffer Buf] in
/-- As long as no thread exists, the main thread goes on or gives up. -/
theorem Invariant.prepare (h : run.Invariant) (hbefore : run.stage.before_start = true) {stage : Stage}
    (hpasses : run.stage.passes stage = true) (hstart : ∀ idx, stage ≠ .start idx) :
    { run with stage }.Invariant :=
  h.stage hpasses (fun idx heq => absurd heq (hstart idx)) fun _ => all_exited_of_not_started (h.not_started hbefore)

omit [CharBuffer Buf] in
theorem Invariant.stop_threads (h : run.Invariant) {stage : Stage} (hpasses : run.stage.passes stage = true)
    (hstart : ∀ idx, stage = .start idx → run.started = idx) (hjoined : stage.joined = true → run.AllExited) :
    { run with state := run.state.stop_threads, stage }.Invariant := by
  refine h.move (fun id => ?_) nofun hpasses hstart hjoined
  by_cases hasleep : run.state.workers id = .asleep
  · exact Or.inr hasleep
  · exact Or.inl (if_neg hasleep)

/-- `ufh_plugin_init` is called once, before any thread exists. -/
theorem Invariant.plugin_init (h : run.Invariant) (hstage : run.stage = .plugin_init)
    (hact : run.act (.plugin_init success) = some after) : after.Invariant := by
  simp only [act, if_pos hstage] at hact
  have hnothing : run.started = 0 := h.not_started (by rw [hstage]; rfl)
  have hcalls : run.plugin_calls = [] := h.unused (by rw [hstage]; rfl)
  have hcalling : run.calling = fun _ => false := by
    funext id
    rw [← Bool.not_eq_true]
    intro hcalling
    have hstarted := (h.calling id hcalling).1
    unfold Started at hstarted
    omega
  cases success with
  | true =>
    obtain rfl := Option.some.inj hact
    refine ⟨nofun, nofun, fun mgr hmgr => ?_, h.calling, fun _ => hnothing, nofun, nofun, h.finished⟩
    cases hmgr
    refine ⟨rfl, rfl, nofun, ?_⟩
    simp only [hcalls, hcalling]
    exact .snoc .nil .created
  | false =>
    obtain rfl := Option.some.inj hact
    refine ⟨nofun, fun _ => ⟨rfl, .gone, ?_, nofun⟩, fun mgr hmgr => ?_, h.calling, nofun, nofun,
      fun _ => all_exited_of_not_started hnothing, h.finished⟩
    · simp only [hcalls]
      exact .snoc .nil .failed
    · obtain ⟨_, hbefore, _⟩ := h.live mgr hmgr
      rw [hstage] at hbefore
      cases hbefore

omit [CharBuffer Buf] in
theorem Invariant.start_thread (h : run.Invariant) {idx : Nat} (hstage : run.stage = .start idx) :
    { run with started := idx + 1, stage := .start (idx + 1) }.Invariant := by
  have hstarted := h.starting idx hstage
  refine ⟨nofun, fun hnone => ?_, fun mgr hmgr => ?_, fun id hcalling => ?_, nofun, fun other hother => ?_, nofun,
    h.finished⟩
  · have hplugin := (h.absent hnone).1
    rw [hstage] at hplugin
    cases hplugin
  · obtain ⟨hhave, _, _, hleads⟩ := h.live mgr hmgr
    exact ⟨hhave, rfl, nofun, hleads⟩
  · obtain ⟨hbefore, hposition⟩ := h.calling id hcalling
    refine ⟨?_, hposition⟩
    unfold Started at hbefore ⊢
    simp only
    omega
  · cases hother
    rfl

omit [CharBuffer Buf] in
/-- `ufh_plugin_destroy` is called when all threads have ended and so have left the plugin. -/
theorem Invariant.destroy_plugin (h : run.Invariant) (hstage : run.stage = .destroy_plugin) :
    { run.destroy_plugin with stage := .returned }.Invariant := by
  have hexited : run.AllExited := h.joined (by rw [hstage]; rfl)
  cases hplugin : run.plugin with
  | none =>
    simp only [Run.destroy_plugin, hplugin]
    exact ⟨nofun, fun _ => ⟨rfl, (h.absent hplugin).2⟩, nofun, h.calling, nofun, nofun, fun _ => hexited, h.finished⟩
  | some mgr =>
    obtain ⟨hhave, _, _, hleads⟩ := h.live mgr hplugin
    have hleft : ∀ id, run.calling id = false := by
      intro id
      rw [← Bool.not_eq_true]
      intro hcalling
      obtain ⟨hstarted, client, hposition⟩ := h.calling id hcalling
      have hended := hexited id hstarted
      rw [hposition] at hended
      cases hended
    simp only [Run.destroy_plugin, hplugin, if_pos hhave]
    exact ⟨nofun, fun _ => ⟨rfl, .gone, hleads.snoc (.destroyed hleft), nofun⟩, nofun, h.calling, nofun, nofun,
      fun _ => hexited, h.finished⟩

omit [CharBuffer Buf] in
/-- A worker enters the plugin while it processes a message, and so while the plugin exists. -/
theorem Invariant.enter (h : run.Invariant) {client : ClientPtr} (hstarted : run.Started id)
    (hposition : run.state.workers id = .process client) (houtside : run.calling id = false) :
    (run.enter id).Invariant := by
  obtain ⟨mgr, hplugin⟩ := h.exists_plugin hstarted hposition
  obtain ⟨hhave, hbefore, hreturned, hleads⟩ := h.live mgr hplugin
  refine ⟨fun hstage => ?_, fun hnone => ?_, fun other _ => ?_, fun other hcalling => ?_, h.not_started, h.starting,
    h.joined, h.finished⟩
  · exact absurd (hbefore.symm.trans hstage) (by simp)
  · exact absurd (hplugin.symm.trans hnone) (by simp)
  · obtain ⟨hother, _⟩ := h.live other ‹_›
    exact ⟨hother, hbefore, hreturned, hleads.snoc (.enter id houtside)⟩
  · by_cases hsame : other = id
    · subst hsame
      exact ⟨hstarted, client, hposition⟩
    · exact h.calling other ((Function.update_of_ne hsame _ _).symm.trans hcalling)

omit [CharBuffer Buf] in
/-- A worker that is in the plugin returns from it. -/
theorem Invariant.leave (h : run.Invariant) (id : WorkerId) :
    (run.leave id).Invariant ∧ (run.leave id).state = run.state ∧ (run.leave id).calling id = false := by
  unfold Run.leave
  by_cases hinside : run.calling id = true
  · rw [if_pos hinside]
    obtain ⟨hstarted, client, hposition⟩ := h.calling id hinside
    obtain ⟨mgr, hplugin⟩ := h.exists_plugin hstarted hposition
    obtain ⟨_, hbefore, hreturned, hleads⟩ := h.live mgr hplugin
    refine ⟨⟨fun hstage => ?_, fun hnone => ?_, fun other hother => ?_, fun other hcalling => ?_, h.not_started,
      h.starting, h.joined, h.finished⟩, rfl, Function.update_self _ _ _⟩
    · exact absurd (hbefore.symm.trans hstage) (by simp)
    · exact absurd (hplugin.symm.trans hnone) (by simp)
    · exact ⟨(h.live other hother).1, hbefore, hreturned, hleads.snoc (.leave id hinside)⟩
    · by_cases hsame : other = id
      · subst hsame
        exact absurd hcalling (by simp)
      · exact h.calling other ((Function.update_of_ne hsame _ _).symm.trans hcalling)
  · rw [if_neg hinside]
    exact ⟨h, rfl, Bool.not_eq_true _ ▸ hinside⟩

/-- A step of a thread in which no worker comes back from the plugin. -/
theorem Invariant.threads (h : run.Invariant) {action : Action} {state : State Buf}
    (hact : run.state.act action = some state)
    (hinside : ∀ id client success_flag, action = .worker_process id client success_flag → run.calling id = false) :
    { run with state }.Invariant := by
  refine ⟨h.unused, h.absent, h.live, fun id hcalling => ?_, h.not_started, h.starting, fun hstage id hstarted => ?_,
    State.act_keeps_finished hact h.finished⟩
  · obtain ⟨hstarted, client, hposition⟩ := h.calling id hcalling
    refine ⟨hstarted, client, ?_⟩
    obtain hstays | ⟨success_flag, rfl⟩ := (State.act_workers_kept hact id).2 client hposition
    · exact hstays
    · have hreturned := hinside id client success_flag rfl
      rw [hcalling] at hreturned
      cases hreturned
  · exact (State.act_workers_kept hact id).1 (h.joined hstage id hstarted)

theorem Invariant.server (h : run.Invariant) {action : Action} (hact : run.server action = some after) :
    after.Invariant := by
  obtain ⟨state, hstep, rfl⟩ := Option.map_eq_some_iff.mp hact
  obtain ⟨_, hstate⟩ := State.step_eq_some.mp hstep
  cases action with
  | worker_process id client success_flag =>
    obtain ⟨hleave, hsame, houtside⟩ := h.leave id
    refine hleave.threads (by rw [hsame]; exact hstate) fun other _ _ heq => ?_
    cases heq
    exact houtside
  | _ => exact h.threads hstate nofun

/-- Every step of `Server::run` preserves the invariant. -/
theorem Invariant.act (h : run.Invariant) {action : RunAction} (hact : run.act action = some after) :
    after.Invariant := by
  cases action with
  | read_parameters valid =>
    obtain ⟨hstage, hafter⟩ := Option.ite_none_right_eq_some.mp hact
    obtain rfl := Option.some.inj hafter
    have hbefore : run.stage.before_start = true := by rw [hstage]; rfl
    cases valid with
    | true => exact h.prepare hbefore (by rw [hstage]; rfl) nofun
    | false => exact h.prepare hbefore (by rw [hstage]; rfl) nofun
  | load_plugin success =>
    obtain ⟨hstage, hafter⟩ := Option.ite_none_right_eq_some.mp hact
    obtain rfl := Option.some.inj hafter
    have hbefore : run.stage.before_start = true := by rw [hstage]; rfl
    cases success with
    | true => exact h.prepare hbefore (by rw [hstage]; rfl) nofun
    | false => exact h.prepare hbefore (by rw [hstage]; rfl) nofun
  | plugin_init init_successful =>
    obtain ⟨hstage, _⟩ := Option.ite_none_right_eq_some.mp hact
    exact h.plugin_init hstage hact
  | new_connector success =>
    obtain ⟨hstage, hafter⟩ := Option.ite_none_right_eq_some.mp hact
    obtain rfl := Option.some.inj hafter
    have hbefore : run.stage.before_start = true := by rw [hstage]; rfl
    cases success with
    | true => exact h.prepare hbefore (by rw [hstage]; rfl) nofun
    | false => exact h.prepare hbefore (by rw [hstage]; rfl) nofun
  | new_thread_pool success =>
    obtain ⟨hstage, hafter⟩ := Option.ite_none_right_eq_some.mp hact
    obtain rfl := Option.some.inj hafter
    have hbefore : run.stage.before_start = true := by rw [hstage]; rfl
    cases success with
    | true => exact h.prepare hbefore (by rw [hstage]; rfl) nofun
    | false => exact h.prepare hbefore (by rw [hstage]; rfl) nofun
  | start_lock =>
    obtain ⟨⟨hstage, _⟩, hafter⟩ := Option.ite_none_right_eq_some.mp hact
    obtain rfl := Option.some.inj hafter
    refine h.move (fun _ => Or.inl rfl) (fun hfinished => hfinished) (by rw [hstage]; rfl) (fun idx hidx => ?_) nofun
    cases hidx
    exact h.not_started (by rw [hstage]; rfl)
  | start_thread =>
    simp only [Run.act] at hact
    split at hact
    · next idx hstage =>
      obtain ⟨_, hafter⟩ := Option.ite_none_right_eq_some.mp hact
      obtain rfl := Option.some.inj hafter
      exact h.start_thread hstage
    · cases hact
  | start_failed system_error =>
    simp only [Run.act] at hact
    split at hact
    · next idx hstage =>
      obtain ⟨_, hafter⟩ := Option.ite_none_right_eq_some.mp hact
      cases system_error with
      | true =>
        obtain rfl := Option.some.inj hafter
        exact h.stop_threads (by rw [hstage]; rfl) nofun nofun
      | false =>
        obtain rfl := Option.some.inj hafter
        exact h.move (fun _ => Or.inl rfl) (fun hfinished => hfinished) (by rw [hstage]; rfl) nofun nofun
    · cases hact
  | start_done =>
    obtain ⟨hstage, hafter⟩ := Option.ite_none_right_eq_some.mp hact
    obtain rfl := Option.some.inj hafter
    exact h.move (fun _ => Or.inl rfl) (fun hfinished => hfinished) (by rw [hstage]; rfl) nofun nofun
  | await_threads =>
    obtain ⟨⟨hstage, _⟩, hafter⟩ := Option.ite_none_right_eq_some.mp hact
    obtain rfl := Option.some.inj hafter
    exact h.stage (by rw [hstage]; rfl) nofun nofun
  | end_running =>
    obtain ⟨⟨hstage, hfinished⟩, hafter⟩ := Option.ite_none_right_eq_some.mp hact
    obtain rfl := Option.some.inj hafter
    exact h.stage (by rw [hstage]; rfl) nofun fun _ id _ => h.finished hfinished id
  | stop_lock =>
    obtain ⟨⟨hstage, _⟩, hafter⟩ := Option.ite_none_right_eq_some.mp hact
    obtain rfl := Option.some.inj hafter
    exact h.move (fun _ => Or.inl rfl) (fun hfinished => hfinished) (by rw [hstage]; rfl) nofun nofun
  | stop =>
    obtain ⟨hstage, hafter⟩ := Option.ite_none_right_eq_some.mp hact
    obtain rfl := Option.some.inj hafter
    exact h.stop_threads (by rw [hstage]; rfl) nofun nofun
  | join =>
    obtain ⟨⟨hstage, hexited⟩, hafter⟩ := Option.ite_none_right_eq_some.mp hact
    obtain rfl := Option.some.inj hafter
    exact h.stage (by rw [hstage]; rfl) nofun fun _ => hexited
  | destroy_connector =>
    obtain ⟨hstage, hafter⟩ := Option.ite_none_right_eq_some.mp hact
    obtain rfl := Option.some.inj hafter
    exact h.move (fun _ => Or.inl rfl) (fun hfinished => hfinished) (by rw [hstage]; rfl) nofun
      fun _ => h.joined (by rw [hstage]; rfl)
  | destroy_plugin =>
    obtain ⟨hstage, hafter⟩ := Option.ite_none_right_eq_some.mp hact
    obtain rfl := Option.some.inj hafter
    exact h.destroy_plugin hstage
  | call id =>
    simp only [Run.act] at hact
    split at hact
    · next client hposition =>
      obtain ⟨⟨hstarted, houtside, _⟩, hafter⟩ := Option.ite_none_right_eq_some.mp hact
      obtain rfl := Option.some.inj hafter
      exact h.enter hstarted hposition houtside
    · cases hact
  | server action =>
    obtain ⟨_, hserver⟩ := Option.ite_none_right_eq_some.mp hact
    exact h.server hserver

theorem Reachable.invariant (h : run.Reachable) : run.Invariant := by
  refine ReachesFrom.invariant h .initial fun before action after hbefore hstep => ?_
  obtain ⟨_, hact⟩ := Option.ite_none_left_eq_some.mp hstep
  exact hbefore.act hact

/-- What has happened to the plugin is what may happen to a resource. -/
theorem Reachable.exists_leads (h : run.Reachable) : ∃ status, lifetime.Leads run.plugin_calls status := by
  cases hplugin : run.plugin with
  | none =>
    obtain ⟨_, status, hleads, _⟩ := h.invariant.absent hplugin
    exact ⟨status, hleads⟩
  | some mgr =>
    obtain ⟨_, _, _, hleads⟩ := h.invariant.live mgr hplugin
    exact ⟨_, hleads⟩

/-- When `Server::run` has returned, the plugin has been destroyed unless its initialization failed or was
not reached. -/
theorem Reachable.destroyed (h : run.Reachable) (hreturned : run.stage = .returned) :
    run.plugin_calls.count .destroy = run.plugin_calls.count (.create true) := by
  cases hplugin : run.plugin with
  | none =>
    obtain ⟨_, status, hleads, hnot_live⟩ := h.invariant.absent hplugin
    have hhappened := hleads.happened
    cases status with
    | absent =>
      rw [show run.plugin_calls = [] from hhappened]
      rfl
    | live inside => exact absurd rfl (hnot_live inside)
    | gone => exact hhappened.1
  | some mgr =>
    obtain ⟨_, _, hstage, _⟩ := h.invariant.live mgr hplugin
    exact absurd hreturned hstage

/-- Plugin calls stay inside the plugin's lifetime, for every run of `Server::run`, every failure and
every schedule of the threads. A call starts after `ufh_plugin_init` has succeeded. When
`ufh_plugin_destroy` is called, `ufh_plugin_init` has succeeded, the plugin has not been destroyed before, all
calls that have started have returned, and no call starts or returns any more. Initialization succeeds at most
once, and at the end the plugin has been destroyed if and only if it has succeeded. -/
theorem plugin_lifetime (h : run.Reachable) :
    (∀ front id back, run.plugin_calls = front ++ .enter id :: back →
      front.count (.create true) = 1 ∧ front.count .destroy = 0) ∧
    (∀ front back, run.plugin_calls = front ++ .destroy :: back →
      front.count (.create true) = 1 ∧ front.count .destroy = 0 ∧
        (∀ id, front.count (.enter id) = front.count (.leave id)) ∧ ∀ id, .enter id ∉ back ∧ .leave id ∉ back) ∧
    run.plugin_calls.count (.create true) ≤ 1 ∧
    (run.stage = .returned → run.plugin_calls.count .destroy = run.plugin_calls.count (.create true)) := by
  obtain ⟨status, hleads⟩ := h.exists_leads
  refine ⟨fun front id back hsplit => hleads.used (Or.inl rfl) hsplit, fun front back hsplit => ?_,
    hleads.created_once, h.destroyed⟩
  obtain ⟨hcreated, hnot_destroyed, hleft⟩ := hleads.destroyed hsplit
  exact ⟨hcreated, hnot_destroyed, hleft, fun id => hleads.not_used_after hsplit⟩

/-- A run in which the stop signal arrives while a worker is in the plugin. -/
def interrupted_run : List RunAction :=
  let header : Bytes := [0, 0x81, 0, 16]
  let payload : Bytes := 0 :: 10 :: protocol.NODENAME ++ [protocol.SPLIT_BYTE, 0x61]
  let start : List RunAction :=
    [.read_parameters true, .load_plugin true, .plugin_init true, .new_connector true,
        .new_thread_pool true, .start_lock]
  let receive : List (List Action) :=
    [Action.startup, Action.accept_round 6 23 [], Action.round [6] [] [] [.visit 23 (.received header)],
      Action.round [6] [] [] (Action.complete 23 none payload), [.worker_lock 0, .worker_test 0, .worker_take 0]]
  let shutdown : List Action :=
    [.signal, .signal_flag, .signal_write, .test_signal, .cleanup_socket, .cleanup_action_lock, .cleanup_action,
      .cleanup_com_lock, .cleanup_disable, .cleanup_signal, .cleanup_com, .stop_lock, .stop]
  let finish : List Action :=
    [.worker_process 0 23 true, .worker_hand_back_lock 0 23, .worker_hand_back 0 23, .worker_relock 0, .worker_take 0,
      .worker_wait 0]
  let idle (id : WorkerId) : List Action := [.worker_lock id, .worker_test id]
  List.flatten [start, List.replicate MAX_CONNECTIONS .start_thread, [.start_done], receive.flatten.map .server,
    [.call 0], shutdown.map .server, finish.map .server,
    ((List.finRange MAX_CONNECTIONS).tail.flatMap idle).map .server,
    [.server .join, .end_running, .destroy_connector, .destroy_plugin]]

theorem plugin_lifetime_interrupted : ∃ run : Run BoundedBuffer, run.stage = .returned ∧
    run.plugin_calls = [.create true, .enter 0, .leave 0, .destroy] ∧
    run.plugin_calls.count .destroy = run.plugin_calls.count (.create true) := by
  obtain ⟨run, hrun, hlast⟩ := exists_reachesFrom_of_run
    (by decide +kernel : ((transition.run Run.step (Run.initial BoundedBuffer (.filled 0xA5)) interrupted_run).any
      fun run => run.stage = .returned ∧ run.plugin_calls = [.create true, .enter 0, .leave 0, .destroy]) = true)
  obtain ⟨hreturned, hcalls⟩ := of_decide_eq_true hlast
  obtain ⟨_, _, _, hdestroyed⟩ := plugin_lifetime hrun
  exact ⟨run, hreturned, hcalls, hdestroyed hreturned⟩

end Run

end Server

end ufh
