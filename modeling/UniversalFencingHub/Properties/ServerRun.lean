import UniversalFencingHub.Properties.PluginLifetime
import UniversalFencingHub.Properties.Release
import UniversalFencingHub.Server.Startup

open transition

namespace ufh

theorem State.cleared_of_orderly {Buf : Type} [CharBuffer Buf] [LawfulCharBuffer Buf] {memory : ClientMemory}
    {state : State Buf} (h : ReachesWhere State.step State.Orderly (State.initial Buf memory) state)
    (hfinished : state.selector = .finished) : state.Cleared memory := by
  have hwhere : state.ReachableWhere State.Orderly := ⟨memory, h⟩
  have hfree := hwhere.all_free hfinished
  exact ⟨hwhere.all_closed hfinished, (State.Reachable.own_closed hwhere.reaches).socket_fd (by rw [hfinished]; rfl),
    hfree, fun client => ((State.released_of_reaches h.reaches).blank client (hfree client)).imp_right And.right⟩

namespace Server

namespace Run

variable {Buf : Type} [CharBuffer Buf] {run before after : Run Buf} {action : RunAction} {strict : Prop}
  {memory : ClientMemory}

/-- The steps of a run in which the threads run into no error, or of any run. -/
def Guard (strict : Prop) (run : Run Buf) : RunAction → Prop
  | .server action => State.Guard strict run.state action
  | _ => True

omit [CharBuffer Buf] in
theorem guard_any (action : RunAction) : Guard False run action := by
  cases action with
  | server action => exact False.elim
  | _ => trivial

/-- The steps of a run in which the threads run into no error. -/
def Orderly (run : Run Buf) : RunAction → Prop
  | .server action => run.state.Orderly action
  | _ => True

instance (run : Run Buf) : (action : RunAction) → Decidable (run.Orderly action)
  | .server action => inferInstanceAs (Decidable (run.state.Orderly action))
  | .read_parameters _ | .load_plugin _ | .plugin_init _ | .new_connector _ | .new_thread_pool _ | .start_lock
  | .start_thread | .start_failed _ | .start_done | .await_threads | .end_running | .stop_lock | .stop | .join
  | .destroy_connector | .destroy_plugin | .call _ => .isTrue trivial

omit [CharBuffer Buf] in
theorem guard_of_orderly (h : run.Orderly action) : Guard True run action := by
  cases action with
  | server action => exact fun _ => h
  | _ => trivial

/-- What the stage of `Server::run` says about the threads. -/
def Standing (strict : Prop) (memory : ClientMemory) (run : Run Buf) : Prop :=
  match run.stage with
  | .arguments | .load_plugin | .plugin_init | .connector | .thread_pool | .start_lock =>
    State.Unstarted strict memory run.state
  | .start _ => ∃ state : State Buf, State.Unstarted strict memory state ∧
    run.state = { state with action_queue_lock := some .selector }
  | .running => ReachesWhere State.step (State.Guard strict) (State.initial Buf memory) run.state
  | .await_threads | .stop_lock | .stop | .join => run.state.Untouched memory
  | .destroy_connector | .destroy_plugin | .returned => strict → run.state.Cleared memory

omit [CharBuffer Buf] in
theorem leave_kept (run : Run Buf) (id : WorkerId) :
    (run.leave id).stage = run.stage ∧ (run.leave id).started = run.started ∧
      ∀ other, (run.leave id).calling other = if other = id then false else run.calling other := by
  unfold leave
  split
  · exact ⟨rfl, rfl, fun other => Function.update_apply ..⟩
  · next houtside =>
    refine ⟨rfl, rfl, fun other => ?_⟩
    by_cases hsame : other = id
    · rw [hsame, if_pos rfl]
      exact Bool.not_eq_true _ ▸ houtside
    · rw [if_neg hsame]

theorem server_eq {action : Action} (hserver : before.server action = some after) :
    before.state.step action = some after.state ∧ after.stage = before.stage := by
  obtain ⟨state, hstep, rfl⟩ := Option.map_eq_some_iff.mp hserver
  cases action with
  | worker_process id client success_flag => exact ⟨hstep, (leave_kept before id).1⟩
  | _ => exact ⟨hstep, rfl⟩

/-- Before the first thread is started only the signal handler runs. -/
theorem not_by_worker (h : before.Invariant) (hstage : before.stage.before_start = true) {action : Action}
    (hpermits : before.Permits action) : action.worker = none := by
  cases hworker : action.worker with
  | none => rfl
  | some id =>
    have hstarted := hpermits.2.1 id hworker
    have hnone := h.not_started hstage
    unfold Started at hstarted
    omega

/-- After the last thread has been joined only the signal handler runs. -/
theorem not_by_exited (h : before.AllExited) {action : Action} {state : State Buf} (hpermits : before.Permits action)
    (hact : before.state.act action = some state) : action.worker = none := by
  cases hworker : action.worker with
  | none => rfl
  | some id => exact absurd (h id (hpermits.2.1 id hworker)) (State.act_worker hact hworker).2.1

theorem Standing.threads [LawfulCharBuffer Buf] (h : Standing strict memory before) (hinvariant : before.Invariant)
    {action : Action} (hguard : State.Guard strict before.state action) (hpermits : before.Permits action)
    (hserver : before.server action = some after) : Standing strict memory after := by
  obtain ⟨hstep, hstage⟩ := server_eq hserver
  obtain ⟨hrunning, hact⟩ := State.step_eq_some.mp hstep
  unfold Standing at h ⊢
  rw [hstage]
  have hselector : before.stage ≠ .running → action.by_selector = false := by
    intro hother
    rw [← Bool.not_eq_true]
    exact fun hby => hother (hpermits.1 hby)
  have hwaiting : before.stage.before_start = true → State.Unstarted strict memory before.state →
      State.Unstarted strict memory after.state := by
    intro hbefore hwaits
    have hlock : { before.state with action_queue_lock := none } = before.state := by
      rw [← hwaits.action_queue_lock]
    have hother : before.stage ≠ .running := by
      intro heq
      rw [heq] at hbefore
      cases hbefore
    obtain ⟨next, hnext, hafter⟩ := hwaits.act hrunning none (hlock.symm ▸ hact) (hselector hother)
      (not_by_worker hinvariant hbefore hpermits)
    rw [hafter, show { next with action_queue_lock := none } = next by rw [← hnext.action_queue_lock]]
    exact hnext
  have hcleared : before.stage.joined = true → (strict → before.state.Cleared memory) → strict →
      after.state.Cleared memory := by
    intro hjoined hclear hstrict
    have hother : before.stage ≠ .running := by
      intro heq
      rw [heq] at hjoined
      cases hjoined
    exact (hclear hstrict).same (State.handler_act_kept hact (hselector hother)
      (not_by_exited (hinvariant.joined hjoined) hpermits hact))
  cases hposition : before.stage with
  | start idx =>
    simp only [hposition] at h ⊢
    obtain ⟨state, hwaits, hstate⟩ := h
    rw [hstate] at hact hrunning
    cases hworker : action.worker with
    | some id => exact absurd hact (hwaits.worker_blocked hworker)
    | none => exact hwaits.act hrunning _ hact (hselector (by rw [hposition]; nofun)) hworker
  | running =>
    simp only [hposition] at h ⊢
    exact h.tail hguard hstep
  | arguments | load_plugin | plugin_init | connector | thread_pool | start_lock =>
    simp only [hposition] at h ⊢
    exact hwaiting (by rw [hposition]; rfl) h
  | await_threads | stop_lock | stop | join =>
    simp only [hposition] at h ⊢
    exact h.act hact (hselector (by rw [hposition]; nofun))
  | destroy_connector | destroy_plugin | returned =>
    simp only [hposition] at h ⊢
    exact hcleared (by rw [hposition]; rfl) h

theorem Standing.waiting (h : Standing strict memory run) (hstage : run.stage.before_start = true) :
    State.Unstarted strict memory run.state := by
  unfold Standing at h
  generalize run.stage = stage at h hstage
  cases stage with
  | arguments | load_plugin | plugin_init | connector | thread_pool | start_lock => exact h
  | _ => cases hstage

/-- What the main thread does before `WorkerPool::start` succeeds or fails. -/
theorem Standing.prepare [LawfulCharBuffer Buf] (h : Standing strict memory before)
    (hstage : before.stage.before_start = true) (hstate : after.state = before.state)
    (hafter : after.stage.before_start = true ∨ after.stage = .destroy_plugin ∨ after.stage = .destroy_connector) :
    Standing strict memory after := by
  have hwaiting := h.waiting hstage
  unfold Standing
  rw [hstate]
  generalize after.stage = stage at hafter
  cases stage with
  | arguments | load_plugin | plugin_init | connector | thread_pool | start_lock => exact hwaiting
  | destroy_connector | destroy_plugin | returned => exact fun _ => hwaiting.untouched.cleared
  | start idx => simp [Stage.before_start, Stage.before_init] at hafter
  | _ => exact absurd hafter (by decide)

/-- Every step of `Server::run` leads to a state of the threads that fits the stage. -/
theorem Standing.act [LawfulCharBuffer Buf] (h : Standing strict memory before) (hguard : Guard strict before action)
    (hinvariant : before.Invariant) (hact : before.act action = some after) : Standing strict memory after := by
  cases action with
  | read_parameters valid =>
    obtain ⟨hstage, hafter⟩ := Option.ite_none_right_eq_some.mp hact
    obtain rfl := Option.some.inj hafter
    refine h.prepare (by rw [hstage]; rfl) rfl ?_
    cases valid with
    | true => exact Or.inl rfl
    | false => exact Or.inr (Or.inl rfl)
  | load_plugin success =>
    obtain ⟨hstage, hafter⟩ := Option.ite_none_right_eq_some.mp hact
    obtain rfl := Option.some.inj hafter
    refine h.prepare (by rw [hstage]; rfl) rfl ?_
    cases success with
    | true => exact Or.inl rfl
    | false => exact Or.inr (Or.inl rfl)
  | plugin_init init_successful =>
    obtain ⟨hstage, hafter⟩ := Option.ite_none_right_eq_some.mp hact
    cases init_successful with
    | true =>
      obtain rfl := Option.some.inj hafter
      exact h.prepare (by rw [hstage]; rfl) rfl (Or.inl rfl)
    | false =>
      obtain rfl := Option.some.inj hafter
      exact h.prepare (by rw [hstage]; rfl) rfl (Or.inr (Or.inl rfl))
  | new_connector success =>
    obtain ⟨hstage, hafter⟩ := Option.ite_none_right_eq_some.mp hact
    obtain rfl := Option.some.inj hafter
    refine h.prepare (by rw [hstage]; rfl) rfl ?_
    cases success with
    | true => exact Or.inl rfl
    | false => exact Or.inr (Or.inl rfl)
  | new_thread_pool success =>
    obtain ⟨hstage, hafter⟩ := Option.ite_none_right_eq_some.mp hact
    obtain rfl := Option.some.inj hafter
    refine h.prepare (by rw [hstage]; rfl) rfl ?_
    cases success with
    | true => exact Or.inl rfl
    | false => exact Or.inr (Or.inr rfl)
  | start_lock =>
    obtain ⟨⟨hstage, _⟩, hafter⟩ := Option.ite_none_right_eq_some.mp hact
    obtain rfl := Option.some.inj hafter
    exact ⟨before.state, h.waiting (by rw [hstage]; rfl), rfl⟩
  | start_thread =>
    simp only [Run.act] at hact
    split at hact
    · next idx hstage =>
      obtain ⟨_, hafter⟩ := Option.ite_none_right_eq_some.mp hact
      obtain rfl := Option.some.inj hafter
      simp only [Standing, hstage] at h
      exact h
    · cases hact
  | start_failed system_error =>
    simp only [Run.act] at hact
    split at hact
    · next idx hstage =>
      obtain ⟨_, hafter⟩ := Option.ite_none_right_eq_some.mp hact
      simp only [Standing, hstage] at h
      obtain ⟨state, hwaits, hstate⟩ := h
      obtain ⟨hconnector, hsocket, hworkers⟩ := hwaits.untouched
      have huntouched : before.state.Untouched memory := by
        rw [hstate]
        exact ⟨hconnector, hsocket, hworkers⟩
      cases system_error with
      | true =>
        obtain rfl := Option.some.inj hafter
        exact huntouched.stop_threads
      | false =>
        obtain rfl := Option.some.inj hafter
        exact ⟨huntouched.connector, huntouched.socket_fd, huntouched.workers⟩
    · cases hact
  | start_done =>
    obtain ⟨hstage, hafter⟩ := Option.ite_none_right_eq_some.mp hact
    obtain rfl := Option.some.inj hafter
    simp only [Standing, hstage] at h
    obtain ⟨state, hwaits, hstate⟩ := h
    simp only [Standing, hstate]
    rw [← hwaits.action_queue_lock]
    exact hwaits.reachable
  | await_threads =>
    obtain ⟨⟨hstage, _⟩, hafter⟩ := Option.ite_none_right_eq_some.mp hact
    obtain rfl := Option.some.inj hafter
    simp only [Standing, hstage] at h
    exact h
  | end_running =>
    obtain ⟨⟨hstage, hfinished⟩, hafter⟩ := Option.ite_none_right_eq_some.mp hact
    obtain rfl := Option.some.inj hafter
    simp only [Standing, hstage] at h
    intro hstrict
    exact State.cleared_of_orderly (h.weaken fun _ _ hguard => hguard hstrict) hfinished
  | stop_lock =>
    obtain ⟨⟨hstage, _⟩, hafter⟩ := Option.ite_none_right_eq_some.mp hact
    obtain rfl := Option.some.inj hafter
    simp only [Standing, hstage] at h
    exact ⟨h.connector, h.socket_fd, h.workers⟩
  | stop =>
    obtain ⟨hstage, hafter⟩ := Option.ite_none_right_eq_some.mp hact
    obtain rfl := Option.some.inj hafter
    simp only [Standing, hstage] at h
    exact h.stop_threads
  | join =>
    obtain ⟨⟨hstage, _⟩, hafter⟩ := Option.ite_none_right_eq_some.mp hact
    obtain rfl := Option.some.inj hafter
    simp only [Standing, hstage] at h
    exact fun _ => h.cleared
  | destroy_connector =>
    obtain ⟨hstage, hafter⟩ := Option.ite_none_right_eq_some.mp hact
    obtain rfl := Option.some.inj hafter
    simp only [Standing, hstage] at h
    exact fun hstrict => (h hstrict).close_own
  | destroy_plugin =>
    obtain ⟨hstage, hafter⟩ := Option.ite_none_right_eq_some.mp hact
    obtain rfl := Option.some.inj hafter
    simp only [Standing, hstage] at h
    have hstate : before.destroy_plugin.state = before.state := by
      unfold Run.destroy_plugin
      split
      · rfl
      · rfl
    simp only [Standing, hstate]
    exact h
  | call id =>
    simp only [Run.act] at hact
    split at hact
    · next client hposition =>
      obtain ⟨_, hafter⟩ := Option.ite_none_right_eq_some.mp hact
      obtain rfl := Option.some.inj hafter
      exact h
    · cases hact
  | server action =>
    obtain ⟨hpermits, hserver⟩ := Option.ite_none_right_eq_some.mp hact
    exact h.threads hinvariant hguard hpermits hserver

/-- The states of `Server::run` in which the threads run into no error so far, or all states. -/
def ReachableWhere (strict : Prop) (memory : ClientMemory) (run : Run Buf) : Prop :=
  ReachesWhere step (Guard strict) (initial Buf memory) run

theorem ReachableWhere.standing [LawfulCharBuffer Buf] (h : ReachableWhere strict memory run) :
    Standing strict memory run := by
  refine (ReachesWhere.invariant (P := fun run => run.Invariant ∧ Standing strict memory run) h
    ⟨.initial memory, State.Unstarted.initial memory⟩ ?_).2
  rintro before action after ⟨hinvariant, hstanding⟩ hguard hstep
  obtain ⟨_, hact⟩ := Option.ite_none_left_eq_some.mp hstep
  exact ⟨hinvariant.act hact, hstanding.act hguard hinvariant hact⟩

/-- All workers run, and none of them is in the plugin. -/
structure Serving (run : Run Buf) (state : State Buf) : Prop where
  stage : run.stage = .running
  state : run.state = state
  started : run.started = MAX_CONNECTIONS
  calling : ∀ id, run.calling id = false

/-- The state of `Server::run` when `idx` workers have been started. -/
def starting (Buf : Type) [CharBuffer Buf] (memory : ClientMemory) (idx : Nat) : Run Buf :=
  { stage := .start idx
    plugin := some { have_plugin_init := true }
    started := idx
    state := { State.initial Buf memory with action_queue_lock := some .selector }
    plugin_calls := [.create true] }

theorem reachable_starting (memory : ClientMemory) (idx : Nat) (hidx : idx ≤ MAX_CONNECTIONS) :
    (starting Buf memory idx).Reachable := by
  induction idx with
  | zero =>
    have hrun : transition.run step (initial Buf memory) [.read_parameters true, .load_plugin true, .plugin_init true,
        .new_connector true, .new_thread_pool true, .start_lock] = some (starting Buf memory 0) := rfl
    exact ⟨memory, reaches_of_run hrun⟩
  | succ idx ih =>
    have hstep : (starting Buf memory idx).step .start_thread = some (starting Buf memory (idx + 1)) := by
      change (if idx < MAX_CONNECTIONS then _ else none) = _
      rw [if_pos (Nat.lt_of_succ_le hidx)]
      rfl
    exact (ih (Nat.le_of_succ_le hidx)).tail trivial hstep

/-- All workers are started, and none of them takes a step before. -/
theorem exists_started (memory : ClientMemory) :
    ∃ run : Run Buf, run.Reachable ∧ run.Serving (State.initial Buf memory) := by
  have hstep : (starting Buf memory MAX_CONNECTIONS).step .start_done =
      some { starting Buf memory MAX_CONNECTIONS with state := State.initial Buf memory, stage := .running } := rfl
  exact ⟨_, (reachable_starting memory MAX_CONNECTIONS le_rfl).tail trivial hstep, rfl, rfl, rfl, fun _ => rfl⟩

/-- A step of the threads in `Server::run`, where no worker but the one that takes it is in the plugin. -/
theorem step_server {state next : State Buf} (hstage : run.stage = .running) (hstate : run.state = state)
    (hstarted : run.started = MAX_CONNECTIONS) {action : Action} (hreturned : run.has_returned action = true)
    (hcalling : ∀ id, run.calling id = true → ∃ client success_flag, action = .worker_process id client success_flag)
    (hstep : state.step action = some next) :
    ∃ after : Run Buf, run.step (.server action) = some after ∧ after.Serving next := by
  subst hstate
  have hpermits : run.Permits action := by
    refine ⟨fun _ => hstage, fun id _ => ?_, hreturned⟩
    unfold Started
    rw [hstarted]
    exact id.isLt
  have hserver : run.step (.server action) = run.server action := by
    unfold Run.step
    rw [if_neg (by rw [(State.step_eq_some.mp hstep).1]; decide)]
    exact if_pos hpermits
  rw [hserver]
  unfold Run.server
  rw [hstep]
  cases action with
  | worker_process id client success_flag =>
    obtain ⟨hleft, hcount, hinside⟩ := leave_kept run id
    refine ⟨{ run.leave id with state := next }, rfl, hleft.trans hstage, rfl, hcount.trans hstarted, fun other => ?_⟩
    rw [hinside other]
    split
    · rfl
    · next hne =>
      rw [← Bool.not_eq_true]
      intro hcalls
      obtain ⟨_, _, heq⟩ := hcalling other hcalls
      cases heq
      exact hne rfl
  | _ =>
    refine ⟨_, rfl, hstage, rfl, hstarted, fun other => ?_⟩
    rw [← Bool.not_eq_true]
    intro hcalls
    obtain ⟨_, _, heq⟩ := hcalling other hcalls
    cases heq

/-- A step of the threads in `Server::run`, after the call of the plugin that it stands for. -/
theorem Serving.step {state next : State Buf} (h : run.Serving state) (hrun : run.Reachable) {action : Action}
    (hstep : state.step action = some next) : ∃ after : Run Buf, after.Reachable ∧ after.Serving next := by
  obtain ⟨hstage, rfl, hstarted, hcalling⟩ := h
  obtain ⟨hrunning, hact⟩ := State.step_eq_some.mp hstep
  have hnobody : ∀ id, run.calling id = true → ∃ client success_flag,
      action = .worker_process id client success_flag := fun id hcalls => absurd hcalls (by rw [hcalling id]; decide)
  by_cases hreturned : run.has_returned action = true
  · obtain ⟨after, hafter, hserving⟩ := step_server hstage rfl hstarted hreturned hnobody hstep
    exact ⟨after, hrun.tail trivial hafter, hserving⟩
  · cases action with
    | worker_process id client success_flag =>
      obtain ⟨hposition, _⟩ := State.only_if_eq_some.mp hact
      have hcalls : run.calls_plugin client = true := by
        by_contra hnot
        exact hreturned (by simp [has_returned, hnot])
      have hid : run.Started id := by
        unfold Started
        rw [hstarted]
        exact id.isLt
      have hcall : run.step (.call id) = some (run.enter id) := by
        unfold Run.step
        rw [if_neg (by rw [hrunning]; decide)]
        simp only [Run.act, hposition]
        exact if_pos ⟨hid, hcalling id, hcalls⟩
      have hinside : (run.enter id).has_returned (.worker_process id client success_flag) = true := by
        simp [has_returned, enter]
      have honly : ∀ other, (run.enter id).calling other = true → ∃ client' success_flag',
          Action.worker_process id client success_flag = .worker_process other client' success_flag' := by
        intro other hother
        by_cases hsame : other = id
        · rw [hsame]
          exact ⟨_, _, rfl⟩
        · have hkept : (run.enter id).calling other = run.calling other := Function.update_of_ne hsame ..
          rw [hkept, hcalling other] at hother
          cases hother
      have hentered : (run.enter id).stage = .running := hstage
      obtain ⟨after, hafter, hserving⟩ := step_server hentered rfl hstarted hinside honly hstep
      exact ⟨after, (hrun.tail trivial hcall).tail trivial hafter, hserving⟩
    | _ => exact absurd rfl hreturned

/-- The threads of the server do in `Server::run` exactly what they do when all workers start together. However
the creation of the threads, their first steps and early signals interleave, the states in which
`ServerConnector::run` runs are those that are reachable from the state before their first steps. -/
theorem running_states [LawfulCharBuffer Buf] (state : State Buf) :
    state.Reachable ↔ ∃ run : Run Buf, run.Reachable ∧ run.stage = .running ∧ run.state = state := by
  constructor
  · intro h
    have hserving : ∃ run : Run Buf, run.Reachable ∧ run.Serving state := by
      refine ReachesFrom.invariant (P := fun state => ∃ run : Run Buf, run.Reachable ∧ run.Serving state) h
        exists_started ?_
      rintro before action after ⟨run, hrun, hserving⟩ hstep
      exact hserving.step hrun hstep
    obtain ⟨run, hrun, hserving⟩ := hserving
    exact ⟨run, hrun, hserving.stage, hserving.state⟩
  · rintro ⟨run, hrun, hstage, rfl⟩
    obtain ⟨memory, hrun⟩ := hrun
    have hwhere : ReachableWhere False memory run := hrun.weaken fun _ action _ => guard_any action
    have hstanding := hwhere.standing
    simp only [Standing, hstage] at hstanding
    exact ⟨memory, hstanding.reaches⟩

theorem running_states_two : ∃ run : Run BoundedBuffer, run.stage = .running ∧ run.state.sockets = [7, 6] := by
  obtain ⟨state, hreached, hfound⟩ := exists_reachesFrom_of_run
    (by decide +kernel : ((transition.run State.step (State.initial BoundedBuffer (.filled 0xA5))
      State.connected_run).any fun state => state.sockets = [7, 6]) = true)
  obtain ⟨run, _, hstage, hstate⟩ := (running_states state).mp hreached
  exact ⟨run, hstage, by rw [hstate]; exact of_decide_eq_true hfound⟩

/-- However `Server::run` comes to its end, after the stop signal or after any failure of its initialization, it
leaves nothing behind: all workers have been joined, no worker is in the plugin, which is unloaded, no descriptor
is open, and all client objects are back in the pool, unused or cleared. -/
theorem nothing_left [LawfulCharBuffer Buf] (h : ReachesWhere step Orderly (initial Buf memory) run)
    (hreturned : run.stage = .returned) :
    run.AllExited ∧ run.plugin = none ∧ (∀ id, run.calling id = false) ∧ run.state.connector.open_fds = [] ∧
      ∀ client, client ∈ run.state.connector.client_pool.free_objects ∧
        (run.state.connector.clients client).Blank (memory.io_buffer client) := by
  have hinvariant := Reachable.invariant ⟨memory, h.reaches⟩
  have hwhere : ReachableWhere True memory run := h.weaken fun _ action hguard => guard_of_orderly hguard
  have hstanding := hwhere.standing
  simp only [Standing, hreturned] at hstanding
  obtain ⟨hopen, _, hpool, hblank⟩ := hstanding trivial
  have hexited := hinvariant.joined (by rw [hreturned]; rfl)
  refine ⟨hexited, ?_, fun id => ?_, hopen, fun client => ⟨hpool client, hblank client⟩⟩
  · cases hplugin : run.plugin with
    | none => rfl
    | some mgr => exact absurd hreturned (hinvariant.live mgr hplugin).2.2.1
  · rw [← Bool.not_eq_true]
    intro hcalling
    obtain ⟨hstarted, client, hposition⟩ := hinvariant.calling id hcalling
    have hended := hexited id hstarted
    rw [hposition] at hended
    cases hended

theorem nothing_left_interrupted : ∃ run : Run BoundedBuffer, run.stage = .returned ∧
    run.state.connector.connections = 1 ∧ run.state.connector.open_fds = [] := by
  obtain ⟨run, hreached, hfound⟩ := exists_reachesWhere_of_runWhere
    (by decide +kernel : ((runWhere step (fun run action => run.Orderly action) (initial BoundedBuffer (.filled 0xA5))
      interrupted_run).any fun run => run.stage = .returned ∧ run.state.connector.connections = 1) = true)
  obtain ⟨hreturned, hconnections⟩ := of_decide_eq_true hfound
  obtain ⟨_, _, _, hopen, _⟩ := nothing_left (hreached.weaken fun _ _ horderly => of_decide_eq_true horderly) hreturned
  exact ⟨run, hreturned, hconnections, hopen⟩

end Run

end Server

end ufh
