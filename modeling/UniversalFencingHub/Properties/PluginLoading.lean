import UniversalFencingHub.Properties.PluginLifetime
import UniversalFencingHub.Server.Plugin

open transition

namespace ufh

namespace plugin

/-- The name under which the linker looks up the function that is called. -/
def Call.symbol : Call → Bytes
  | .ufh_plugin_init => SYMBOL_INIT
  | .ufh_plugin_destroy _ => SYMBOL_DESTROY
  | .ufh_fence _ call =>
    match call.function with
    | .ufh_fence_off => SYMBOL_FENCE_OFF
    | .ufh_fence_on => SYMBOL_FENCE_ON
    | .ufh_fence_reboot => SYMBOL_FENCE_REBOOT

/-- A call passes the context that the initialization has returned. -/
def Call.HasContext (linker : Linker) : Call → Prop
  | .ufh_plugin_init => True
  | .ufh_plugin_destroy context => linker.init_successful = true ∧ context = some linker.context
  | .ufh_fence context _ => linker.init_successful = true ∧ context = some linker.context

/-- The life of the library, in which its functions are entered and left. -/
def Event.lifetime : Event → lifetime.Event (Option WorkerId)
  | .dlopen plugin_handle => .create plugin_handle.isSome
  | .call thread _ _ => .enter thread
  | .returned thread => .leave thread
  | .dlclose _ => .destroy

/-- What happens is done to the library at the path, and calls go to its functions. -/
def Event.Proper (linker : Linker) (path : Bytes) : Event → Prop
  | .dlopen plugin_handle => plugin_handle = linker.dlopen path
  | .call _ address function => address ≠ none ∧ function.HasContext linker ∧
    ∃ plugin_handle, linker.dlopen path = some plugin_handle ∧ address = linker.dlsym plugin_handle function.symbol
  | .returned _ => True
  | .dlclose plugin_handle => linker.dlopen path = some plugin_handle

/-- The function table holds the addresses of all functions of the library. -/
structure FunctionTable.Resolved (functions : FunctionTable) (linker : Linker) (plugin_handle : Nat) : Prop where
  pointer : ∀ call, functions.pointer call = linker.dlsym plugin_handle call.symbol
  present : ∀ call, functions.pointer call ≠ none

theorem load_plugin_ok {linker : Linker} {path : Bytes} {functions loaded : FunctionTable} {plugin_handle : Nat}
    (hload : load_plugin linker path functions = (loaded, .ok plugin_handle)) :
    linker.dlopen path = some plugin_handle ∧ loaded.Resolved linker plugin_handle := by
  unfold load_plugin at hload
  split at hload
  · cases hload
  · next handle hopen =>
    simp only at hload
    split at hload
    · next hpresent =>
      cases hload
      obtain ⟨hinit, hdestroy, hoff, hon, hreboot⟩ := hpresent
      refine ⟨hopen, fun call => ?_, fun call => ?_⟩
      · cases call with
        | ufh_fence context call =>
          obtain ⟨function, nodename⟩ := call
          cases function with
          | _ => rfl
        | _ => rfl
      · cases call with
        | ufh_plugin_init => exact hinit
        | ufh_plugin_destroy context => exact hdestroy
        | ufh_fence context call =>
          obtain ⟨function, nodename⟩ := call
          cases function with
          | ufh_fence_off => exact hoff
          | ufh_fence_on => exact hon
          | ufh_fence_reboot => exact hreboot
    · cases hload

theorem Event.proper_call {linker : Linker} {path : Bytes} {functions : FunctionTable} {plugin_handle : Nat}
    (hopen : linker.dlopen path = some plugin_handle) (hresolved : functions.Resolved linker plugin_handle)
    (thread : Option WorkerId) {function : Call} (hcontext : function.HasContext linker) :
    (Event.call thread (functions.pointer function) function).Proper linker path :=
  ⟨hresolved.present function, hcontext, plugin_handle, hopen, hresolved.pointer function⟩

end plugin

namespace Server

/-- The steps in which the plugin is loaded, initialized, called, left or destroyed. -/
def RunAction.on_plugin : RunAction → Bool
  | .load_plugin _ => true
  | .plugin_init _ => true
  | .destroy_plugin => true
  | .call _ => true
  | .server _ => true
  | _ => false

namespace Run

variable {Buf : Type} [CharBuffer Buf] {run after : Run Buf} {action : RunAction}

/-- A step that has nothing to do with the plugin. -/
structure OffPlugin (run after : Run Buf) : Prop where
  plugin : after.plugin = run.plugin
  plugin_calls : after.plugin_calls = run.plugin_calls
  calling : after.calling = run.calling
  unused : after.stage = .arguments ∨ after.stage = .load_plugin → run.stage = .arguments ∨ run.stage = .load_plugin
  not_loaded : after.stage ≠ .plugin_init

theorem act_off_plugin (hact : run.act action = some after) (haction : action.on_plugin = false) :
    OffPlugin run after := by
  cases action with
  | read_parameters valid =>
    obtain ⟨hstage, hafter⟩ := Option.ite_none_right_eq_some.mp hact
    obtain rfl := Option.some.inj hafter
    refine ⟨rfl, rfl, rfl, fun _ => Or.inl hstage, ?_⟩
    cases valid with
    | _ => exact (fun h => by cases h)
  | new_connector success =>
    obtain ⟨_, hafter⟩ := Option.ite_none_right_eq_some.mp hact
    obtain rfl := Option.some.inj hafter
    cases success with
    | _ => exact ⟨rfl, rfl, rfl, by simp, by simp⟩
  | new_thread_pool success =>
    obtain ⟨_, hafter⟩ := Option.ite_none_right_eq_some.mp hact
    obtain rfl := Option.some.inj hafter
    cases success with
    | _ => exact ⟨rfl, rfl, rfl, by simp, by simp⟩
  | start_thread =>
    simp only [Run.act] at hact
    split at hact
    · obtain ⟨_, hafter⟩ := Option.ite_none_right_eq_some.mp hact
      obtain rfl := Option.some.inj hafter
      exact ⟨rfl, rfl, rfl, by simp, by simp⟩
    · cases hact
  | start_failed system_error =>
    simp only [Run.act] at hact
    split at hact
    · obtain ⟨_, hafter⟩ := Option.ite_none_right_eq_some.mp hact
      cases system_error with
      | _ =>
        obtain rfl := Option.some.inj hafter
        exact ⟨rfl, rfl, rfl, by simp, by simp⟩
    · cases hact
  | start_lock | start_done | await_threads | end_running | stop_lock | stop | join | destroy_connector =>
    obtain ⟨_, hafter⟩ := Option.ite_none_right_eq_some.mp hact
    obtain rfl := Option.some.inj hafter
    exact ⟨rfl, rfl, rfl, by simp, by simp⟩
  | load_plugin | plugin_init | destroy_plugin | call | server => cases haction

end Run

namespace Host

variable {Buf : Type} [CharBuffer Buf] {host before after : Host Buf} {linker : plugin.Linker} {path : Bytes}
  {action : RunAction}

/-- What has happened to the library, as what may happen to a resource. -/
def library_calls (host : Host Buf) : List (lifetime.Event (Option WorkerId)) :=
  host.events.map plugin.Event.lifetime

/-- The threads that are in a function of the library, outside the constructor and the destructor of the plugin
manager. -/
def inside (host : Host Buf) : Option WorkerId → Bool
  | some id => host.run.calling id
  | none => false

/-- The library is open, its functions are known and the handle is kept. -/
structure Loaded (linker : plugin.Linker) (path : Bytes) (host : Host Buf) : Prop where
  exists_handle : ∃ plugin_handle, linker.dlopen path = some plugin_handle ∧
    host.plugin_handle = some plugin_handle ∧ host.plugin_functions.Resolved linker plugin_handle
  library : lifetime.Leads host.library_calls (.live host.inside)

/-- What holds of the library in all states of `Server::run`. -/
structure Invariant (linker : plugin.Linker) (path : Bytes) (host : Host Buf) : Prop where
  run : host.run.Invariant
  proper : ∀ event ∈ host.events, event.Proper linker path
  unused : host.run.stage = .arguments ∨ host.run.stage = .load_plugin → host.events = []
  loaded : host.run.stage = .plugin_init → host.Loaded linker path
  managed : ∀ mgr, host.run.plugin = some mgr → host.Loaded linker path ∧ linker.init_successful = true ∧
    host.plugin_context = some linker.context
  unmanaged : host.run.plugin = none → (∃ status, lifetime.Leads host.library_calls status) ∧
    host.library_calls.count .destroy = host.run.plugin_calls.count (.create true)

omit [CharBuffer Buf] in
theorem Invariant.silent (h : before.Invariant linker path) (hrun : after.run.Invariant)
    (hhost : after = { before with run := after.run }) (hplugin : after.run.plugin = before.run.plugin)
    (hcalls : after.run.plugin_calls = before.run.plugin_calls) (hcalling : after.run.calling = before.run.calling)
    (hunused : after.run.stage = .arguments ∨ after.run.stage = .load_plugin →
      before.run.stage = .arguments ∨ before.run.stage = .load_plugin)
    (hstage : after.run.stage = .plugin_init → before.run.stage = .plugin_init) : after.Invariant linker path := by
  generalize after.run = run at hrun hhost hplugin hcalls hcalling hunused hstage
  subst hhost
  have hinside : inside { before with run } = before.inside := by
    funext thread
    cases thread with
    | none => rfl
    | some id => exact congrFun hcalling id
  have hloaded : before.Loaded linker path → Loaded linker path { before with run } := by
    rintro ⟨hhandle, hlibrary⟩
    refine ⟨hhandle, ?_⟩
    rw [hinside]
    exact hlibrary
  refine ⟨hrun, h.proper, fun hbefore => h.unused (hunused hbefore), fun hafter => hloaded (h.loaded (hstage hafter)),
    fun mgr hmgr => ?_, fun hnone => ?_⟩
  · obtain ⟨hbefore, hcontext⟩ := h.managed mgr (hplugin.symm.trans hmgr)
    exact ⟨hloaded hbefore, hcontext⟩
  · obtain ⟨hstatus, hcount⟩ := h.unmanaged (hplugin.symm.trans hnone)
    exact ⟨hstatus, hcount.trans (by rw [hcalls])⟩

omit [CharBuffer Buf] in
theorem inside_update {id : WorkerId} {value : Bool}
    (hcalling : after.run.calling = Function.update before.run.calling id value) :
    after.inside = Function.update before.inside (some id) value := by
  funext thread
  cases thread with
  | none => rfl
  | some other =>
    change after.run.calling other = _
    rw [hcalling]
    by_cases hsame : other = id
    · rw [hsame, Function.update_self, Function.update_self]
    · rw [Function.update_of_ne hsame, Function.update_of_ne (fun heq => hsame (Option.some.inj heq))]
      rfl

omit [CharBuffer Buf] in
/-- An event of the library while the plugin manager exists. -/
theorem Invariant.happens (h : before.Invariant linker path) (hrun : after.run.Invariant) {event : plugin.Event}
    (hevents : after.events = before.events ++ [event]) (hproper : event.Proper linker path)
    (hhandle : after.plugin_handle = before.plugin_handle)
    (hfunctions : after.plugin_functions = before.plugin_functions)
    (hcontext : after.plugin_context = before.plugin_context) {mgr : PluginMgr} (hplugin : after.run.plugin = some mgr)
    (hbefore : before.run.plugin = some mgr) {id : WorkerId} {value : Bool}
    (hcalling : after.run.calling = Function.update before.run.calling id value)
    (hnext : lifetime.Next (.live before.inside) event.lifetime
      (.live (Function.update before.inside (some id) value))) : after.Invariant linker path := by
  obtain ⟨⟨hloaded, hlibrary⟩, hinit, hctx⟩ := h.managed mgr hbefore
  have hstage := (hrun.live mgr hplugin).2.1
  refine ⟨hrun, fun other hother => ?_, fun hunused => ?_, fun hloading => ?_, fun _ _ => ⟨⟨?_, ?_⟩, hinit, ?_⟩,
    fun hnone => ?_⟩
  · rw [hevents, List.mem_append, List.mem_singleton] at hother
    obtain hother | rfl := hother
    · exact h.proper other hother
    · exact hproper
  · obtain heq | heq := hunused
    · rw [heq] at hstage
      cases hstage
    · rw [heq] at hstage
      cases hstage
  · rw [hloading] at hstage
    cases hstage
  · rw [hhandle, hfunctions]
    exact hloaded
  · rw [library_calls, hevents, List.map_append]
    rw [inside_update hcalling]
    exact hlibrary.snoc hnext
  · rw [hcontext, hctx]
  · rw [hplugin] at hnone
    cases hnone

omit [CharBuffer Buf] in
/-- Before the plugin manager exists nothing has been done to the plugin. -/
theorem Invariant.not_managed (h : before.Invariant linker path) (hstage : before.run.stage.before_init = true) :
    before.run.plugin = none ∧ before.run.plugin_calls = [] ∧ before.inside = fun _ => false := by
  have hnone : before.run.plugin = none := by
    cases hplugin : before.run.plugin with
    | none => rfl
    | some mgr =>
      have hlater := (h.run.live mgr hplugin).2.1
      rw [hstage] at hlater
      cases hlater
  refine ⟨hnone, h.run.unused hstage, ?_⟩
  funext thread
  cases thread with
  | none => rfl
  | some id =>
    change before.run.calling id = false
    rw [← Bool.not_eq_true]
    intro hcalls
    obtain ⟨hstarted, client, hposition⟩ := h.run.calling id hcalls
    obtain ⟨mgr, hmgr⟩ := h.run.exists_plugin hstarted hposition
    rw [hnone] at hmgr
    cases hmgr

/-- The library is opened, and closed by nobody if a function is missing. -/
theorem Invariant.load_plugin (h : before.Invariant linker path) {success : Bool} {run : Run Buf}
    (hact : before.run.act (.load_plugin success) = some run) (hrun : run.Invariant)
    (hlibrary : before.library linker path (.load_plugin success) = some after) :
    { after with run }.Invariant linker path := by
  obtain ⟨hstage, hafter⟩ := Option.ite_none_right_eq_some.mp hact
  obtain ⟨hnone, hcalls, hinside⟩ := h.not_managed (by rw [hstage]; rfl)
  have hmanaged : ∀ mgr, before.run.plugin ≠ some mgr := by
    rw [hnone]
    exact fun _ h => by cases h
  have hevents : before.events ++ [plugin.Event.dlopen (linker.dlopen path)] = [.dlopen (linker.dlopen path)] := by
    rw [h.unused (Or.inr hstage)]
    rfl
  have hproper : ∀ event ∈ [plugin.Event.dlopen (linker.dlopen path)], event.Proper linker path := by
    intro event hevent
    obtain rfl := List.mem_singleton.mp hevent
    rfl
  cases hload : plugin.load_plugin linker path before.plugin_functions with
  | mk functions result =>
    simp only [library, Host.load_plugin, hload, hevents] at hlibrary
    cases result with
    | ok plugin_handle =>
      obtain ⟨hsuccess, hhost⟩ := Option.ite_none_right_eq_some.mp hlibrary
      obtain rfl := Option.some.inj hhost
      rw [hsuccess] at hafter
      obtain rfl := Option.some.inj hafter
      obtain ⟨hopen, hresolved⟩ := plugin.load_plugin_ok hload
      have hleads : lifetime.Leads ([plugin.Event.dlopen (linker.dlopen path)].map plugin.Event.lifetime)
          (.live before.inside) := by
        rw [hinside, hopen]
        exact .snoc .nil .created
      refine ⟨hrun, hproper, (fun h => by cases h with | _ h => cases h),
        fun _ => ⟨⟨plugin_handle, hopen, rfl, hresolved⟩, hleads⟩, fun mgr hmgr => absurd hmgr (hmanaged mgr),
        fun _ => ⟨⟨_, hleads⟩, ?_⟩⟩
      simp only [hcalls]
      rfl
    | error error_id =>
      obtain ⟨hsuccess, hhost⟩ := Option.ite_none_right_eq_some.mp hlibrary
      obtain rfl := Option.some.inj hhost
      rw [hsuccess] at hafter
      obtain rfl := Option.some.inj hafter
      have hleads : ∃ status,
          lifetime.Leads ([plugin.Event.dlopen (linker.dlopen path)].map plugin.Event.lifetime) status := by
        cases linker.dlopen path with
        | none => exact ⟨_, .snoc .nil .failed⟩
        | some plugin_handle => exact ⟨_, .snoc .nil .created⟩
      refine ⟨hrun, hproper, (fun h => by cases h with | _ h => cases h), (fun h => by cases h),
        fun mgr hmgr => absurd hmgr (hmanaged mgr), fun _ => ⟨hleads, ?_⟩⟩
      simp only [hcalls]
      rfl

/-- The plugin is initialized, and its library is not closed if that fails. -/
theorem Invariant.plugin_init (h : before.Invariant linker path) {init_successful : Bool} {run : Run Buf}
    (hact : before.run.act (.plugin_init init_successful) = some run) (hrun : run.Invariant)
    (hlibrary : before.library linker path (.plugin_init init_successful) = some after) :
    { after with run }.Invariant linker path := by
  obtain ⟨hstage, hafter⟩ := Option.ite_none_right_eq_some.mp hact
  obtain ⟨hnone, hcalls, hinside⟩ := h.not_managed (by rw [hstage]; rfl)
  obtain ⟨⟨plugin_handle, hopen, hkept, hresolved⟩, hleads⟩ := h.loaded hstage
  obtain ⟨rfl, hhost⟩ := Option.ite_none_right_eq_some.mp hlibrary
  obtain rfl := Option.some.inj hhost
  have hproper : ∀ event ∈ before.events ++ [before.calls none .ufh_plugin_init, .returned none],
      event.Proper linker path := by
    intro event hevent
    simp only [List.mem_append, List.mem_cons, List.not_mem_nil, or_false] at hevent
    obtain hevent | rfl | rfl := hevent
    · exact h.proper event hevent
    · exact plugin.Event.proper_call hopen hresolved none trivial
    · trivial
  have hlist : (before.events ++ [before.calls none .ufh_plugin_init, .returned none]).map plugin.Event.lifetime =
      (before.library_calls ++ [.enter none]) ++ [.leave none] := by
    simp [library_calls, plugin.Event.lifetime, calls]
  have hcame : lifetime.Leads
      ((before.events ++ [before.calls none .ufh_plugin_init, .returned none]).map plugin.Event.lifetime)
      (.live before.inside) := by
    rw [hlist]
    have hleft := (hleads.snoc (.enter none (by rw [hinside]))).snoc (.leave none (by simp))
    rwa [Function.update_idem, Function.update_eq_self_iff.mpr (by rw [hinside])] at hleft
  cases hinit : linker.init_successful with
  | true =>
    rw [hinit] at hact hafter
    obtain rfl := Option.some.inj hafter
    simp only [Host.plugin_init, hinit, if_true]
    refine ⟨hrun, hproper, (fun h => by cases h with | _ h => cases h), (fun h => by cases h),
      fun mgr _ => ⟨⟨⟨plugin_handle, hopen, hkept, hresolved⟩, hcame⟩, hinit, rfl⟩, (fun h => by cases h)⟩
  | false =>
    rw [hinit] at hact hafter
    obtain rfl := Option.some.inj hafter
    simp only [Host.plugin_init, hinit]
    refine ⟨hrun, hproper, (fun h => by cases h with | _ h => cases h), (fun h => by cases h),
      fun mgr hmgr => ?_, fun _ => ⟨⟨_, hcame⟩, ?_⟩⟩
    · rw [show before.run.plugin = some mgr from hmgr] at hnone
      cases hnone
    · have hcount : (before.library_calls ++ [lifetime.Event.enter none] ++ [lifetime.Event.leave none]).count
          lifetime.Event.destroy = 0 := by
        have hbefore := (h.unmanaged hnone).2
        rw [hcalls] at hbefore
        simp [List.count_append, hbefore]
      rw [← hlist] at hcount
      exact hcount.trans (by simp [hcalls])

/-- A worker enters a fencing function, with the context that the initialization has returned. -/
theorem Invariant.fence (h : before.Invariant linker path) {id : WorkerId} {run : Run Buf}
    (hact : before.run.act (.call id) = some run) (hrun : run.Invariant) :
    { before.fence id with run }.Invariant linker path := by
  simp only [Run.act] at hact
  split at hact
  · next client hposition =>
    obtain ⟨⟨hstarted, houtside, hcalls⟩, hafter⟩ := Option.ite_none_right_eq_some.mp hact
    obtain rfl := Option.some.inj hafter
    obtain ⟨mgr, hmgr⟩ := h.run.exists_plugin hstarted hposition
    obtain ⟨⟨⟨plugin_handle, hopen, _, hresolved⟩, _⟩, hinit, hcontext⟩ := h.managed mgr hmgr
    obtain ⟨call, hcall⟩ := Option.isSome_iff_exists.mp hcalls
    have hfence : before.fence id = { before with
        events := before.events ++ [before.calls (some id) (.ufh_fence before.plugin_context call)] } := by
      simp only [Host.fence, hposition, hcall]
    rw [hfence]
    exact h.happens hrun rfl (plugin.Event.proper_call hopen hresolved _ ⟨hinit, hcontext⟩) rfl rfl rfl hmgr hmgr rfl
      (.enter (some id) houtside)
  · cases hact

/-- A worker returns from a fencing function. -/
theorem Invariant.leave (h : before.Invariant linker path) {action : Action} {run : Run Buf}
    (hserver : before.run.server action = some run) (hrun : run.Invariant) :
    { before.leave action with run }.Invariant linker path := by
  obtain ⟨state, hstep, rfl⟩ := Option.map_eq_some_iff.mp hserver
  cases action with
  | worker_process id client success_flag =>
    by_cases hinside : before.run.calling id = true
    · have hleave : before.leave (.worker_process id client success_flag) =
          { before with events := before.events ++ [.returned (some id)] } := if_pos hinside
      have hrun_leave : before.run.leave id = { before.run with
          calling := Function.update before.run.calling id false
          plugin_calls := before.run.plugin_calls ++ [.leave id] } := if_pos hinside
      simp only [hrun_leave] at hrun ⊢
      rw [hleave]
      obtain ⟨hstarted, other, hposition⟩ := h.run.calling id hinside
      obtain ⟨mgr, hmgr⟩ := h.run.exists_plugin hstarted hposition
      exact h.happens hrun rfl trivial rfl rfl rfl hmgr hmgr rfl (.leave (some id) hinside)
    · have hleave : before.leave (.worker_process id client success_flag) = before := if_neg hinside
      have hrun_leave : before.run.leave id = before.run := if_neg hinside
      simp only [hrun_leave] at hrun ⊢
      rw [hleave]
      exact h.silent hrun rfl rfl rfl rfl (fun hunused => hunused) (fun hloading => hloading)
  | _ => exact h.silent hrun rfl rfl rfl rfl (fun hunused => hunused) (fun hloading => hloading)

/-- The plugin is destroyed and its library is closed, when nobody is in it any more. -/
theorem Invariant.destroy_plugin (h : before.Invariant linker path) {run : Run Buf}
    (hact : before.run.act .destroy_plugin = some run) (hrun : run.Invariant) :
    { before.destroy_plugin with run }.Invariant linker path := by
  obtain ⟨hstage, hafter⟩ := Option.ite_none_right_eq_some.mp hact
  obtain rfl := Option.some.inj hafter
  cases hplugin : before.run.plugin with
  | none =>
    have hhost : before.destroy_plugin = before := by simp only [Host.destroy_plugin, hplugin]
    have hnothing : before.run.destroy_plugin = before.run := by simp only [Run.destroy_plugin, hplugin]
    rw [hnothing] at hrun ⊢
    rw [hhost]
    exact h.silent hrun rfl rfl rfl rfl (fun h => by cases h with | _ h => cases h) (fun h => by cases h)
  | some mgr =>
    obtain ⟨⟨⟨plugin_handle, hopen, hkept, hresolved⟩, hleads⟩, hinit, hcontext⟩ := h.managed mgr hplugin
    obtain ⟨hhave, _, _, hlife⟩ := h.run.live mgr hplugin
    have hleft : ∀ thread, before.inside thread = false := by
      intro thread
      cases thread with
      | none => rfl
      | some id =>
        rw [← Bool.not_eq_true]
        intro hcalls
        obtain ⟨hstarted, client, hposition⟩ := h.run.calling id hcalls
        have hended := h.run.joined (by rw [hstage]; rfl) id hstarted
        rw [hposition] at hended
        cases hended
    have hhost : before.destroy_plugin = { before with
        plugin_functions := plugin.unload_plugin before.plugin_functions
        plugin_context := none
        plugin_handle := none
        events := before.events ++
          [before.calls none (.ufh_plugin_destroy before.plugin_context), .returned none] ++
          [.dlclose plugin_handle] } := by
      simp only [Host.destroy_plugin, hplugin, hhave, hkept, if_true]
    have hgone : before.run.destroy_plugin = { before.run with
        plugin := none
        plugin_calls := before.run.plugin_calls ++ [.destroy] } := by
      simp only [Run.destroy_plugin, hplugin, hhave, if_true]
    have hlist : (before.events ++ [before.calls none (.ufh_plugin_destroy before.plugin_context), .returned none] ++
        [plugin.Event.dlclose plugin_handle]).map plugin.Event.lifetime =
        ((before.library_calls ++ [.enter none]) ++ [.leave none]) ++ [.destroy] := by
      simp [library_calls, plugin.Event.lifetime, calls]
    have hcalled := (hleads.snoc (.enter none (hleft none))).snoc (.leave none (Function.update_self ..))
    rw [Function.update_idem, Function.update_eq_self_iff.mpr (hleft none).symm] at hcalled
    rw [hgone] at hrun ⊢
    rw [hhost]
    refine ⟨hrun, fun event hevent => ?_, (fun h => by cases h with | _ h => cases h), (fun h => by cases h),
      (fun mgr h => by cases h), fun _ => ⟨⟨.gone, ?_⟩, ?_⟩⟩
    · simp only [List.mem_append, List.mem_cons, List.not_mem_nil, or_false] at hevent
      obtain (hevent | rfl | rfl) | rfl := hevent
      · exact h.proper event hevent
      · exact plugin.Event.proper_call hopen hresolved none ⟨hinit, hcontext⟩
      · trivial
      · exact hopen
    · rw [library_calls, hlist]
      exact hcalled.snoc (.destroyed hleft)
    · rw [library_calls, hlist]
      obtain ⟨_, hnot, _⟩ := hleads.happened
      obtain ⟨hcreated, _, _⟩ := hlife.happened
      simp [List.count_append, hnot, hcreated]

/-- Every step of `Server::run` keeps the library open while its functions may be called. -/
theorem Invariant.step (h : before.Invariant linker path) (hstep : before.step linker path action = some after) :
    after.Invariant linker path := by
  obtain ⟨run, hrun, hlater⟩ := Option.bind_eq_some_iff.mp hstep
  obtain ⟨host, hlibrary, rfl⟩ := Option.map_eq_some_iff.mp hlater
  obtain ⟨_, hact⟩ := Option.ite_none_left_eq_some.mp hrun
  have hinvariant := h.run.act hact
  cases haction : action.on_plugin with
  | false =>
    have hsilent : host = before := by
      cases action with
      | load_plugin | plugin_init | destroy_plugin | call | server => cases haction
      | _ => exact (Option.some.inj hlibrary).symm
    obtain ⟨hplugin, hcalls, hcalling, hunused, hloaded⟩ := Run.act_off_plugin hact haction
    rw [hsilent]
    exact h.silent hinvariant rfl hplugin hcalls hcalling hunused fun hstage => absurd hstage hloaded
  | true =>
    cases action with
    | load_plugin success => exact h.load_plugin hact hinvariant hlibrary
    | plugin_init init_successful => exact h.plugin_init hact hinvariant hlibrary
    | destroy_plugin =>
      obtain rfl := Option.some.inj hlibrary
      exact h.destroy_plugin hact hinvariant
    | call id =>
      obtain rfl := Option.some.inj hlibrary
      exact h.fence hact hinvariant
    | server action =>
      obtain rfl := Option.some.inj hlibrary
      exact h.leave (Option.ite_none_right_eq_some.mp hact).2 hinvariant
    | _ => cases haction

theorem Reachable.invariant (h : host.Reachable linker path) : host.Invariant linker path := by
  refine ReachesFrom.invariant h (fun memory => ⟨.initial memory, (fun _ h => by cases h), fun _ => rfl,
    (fun h => by cases h), (fun _ h => by cases h), fun _ => ⟨⟨.absent, .nil⟩, rfl⟩⟩) ?_
  intro before action after hbefore hstep
  exact hbefore.step hstep

theorem Reachable.exists_leads (h : host.Reachable linker path) :
    ∃ status, lifetime.Leads host.library_calls status := by
  cases hplugin : host.run.plugin with
  | none => exact (h.invariant.unmanaged hplugin).1
  | some mgr => exact ⟨_, (h.invariant.managed mgr hplugin).1.library⟩

omit [CharBuffer Buf] in
/-- A library that has been opened before is the one at the path. -/
theorem Invariant.opened (h : host.Invariant linker path) {front back : List plugin.Event} {plugin_handle : Nat}
    (hevents : host.events = front ++ back) (hopen : linker.dlopen path = some plugin_handle)
    (hcreated : (front.map plugin.Event.lifetime).count (.create true) = 1) : .dlopen (some plugin_handle) ∈ front := by
  have hmem : lifetime.Event.create true ∈ front.map plugin.Event.lifetime := by
    rw [← List.count_pos_iff, hcreated]
    exact Nat.one_pos
  obtain ⟨event, hevent, heq⟩ := List.mem_map.mp hmem
  have hproper := h.proper event (by rw [hevents]; exact List.mem_append_left _ hevent)
  cases event with
  | dlopen handle =>
    rw [show handle = linker.dlopen path from hproper, hopen] at hevent
    exact hevent
  | _ => cases heq

/-- Code of the plugin runs only while its library is loaded, for every library, every run of `Server::run` and
every schedule of the threads. A call is made after `dlopen` and before `dlclose`, through the address that
the library has for the name of the function, which is not null, and with the context that `ufh_plugin_init` has
returned. When the library is closed, all calls have returned, and none follows. It is closed at most once, and at
the end it has been closed if and only if the initialization of the plugin has succeeded. -/
theorem plugin_code_loaded (h : host.Reachable linker path) :
    (∀ front thread address call back, host.events = front ++ .call thread address call :: back →
      ∃ plugin_handle, linker.dlopen path = some plugin_handle ∧ .dlopen (some plugin_handle) ∈ front ∧
        .dlclose plugin_handle ∉ front ∧ address ≠ none ∧ address = linker.dlsym plugin_handle call.symbol ∧
        call.HasContext linker) ∧
    (∀ front plugin_handle back, host.events = front ++ .dlclose plugin_handle :: back →
      linker.dlopen path = some plugin_handle ∧ .dlopen (some plugin_handle) ∈ front ∧
        (∀ closed, .dlclose closed ∉ front) ∧
        (∀ thread, (front.map plugin.Event.lifetime).count (.enter thread) =
          (front.map plugin.Event.lifetime).count (.leave thread)) ∧
        ∀ thread address call, .call thread address call ∉ back) ∧
    (host.run.stage = .returned →
      (host.events.map plugin.Event.lifetime).count .destroy = host.run.plugin_calls.count (.create true)) := by
  have hinvariant := h.invariant
  obtain ⟨status, hleads⟩ := h.exists_leads
  have hmapped : ∀ {front event back}, host.events = front ++ event :: back →
      host.library_calls = front.map plugin.Event.lifetime ++ event.lifetime :: back.map plugin.Event.lifetime := by
    intro front event back hsplit
    rw [library_calls, hsplit, List.map_append, List.map_cons]
  have hproper : ∀ {front event back}, host.events = front ++ event :: back → event.Proper linker path :=
    fun hsplit => hinvariant.proper _ (by rw [hsplit]; exact List.mem_append_right _ (List.mem_cons_self ..))
  refine ⟨fun front thread address call back hsplit => ?_, fun front plugin_handle back hsplit => ?_,
    fun hreturned => ?_⟩
  · obtain ⟨haddress, hcontext, plugin_handle, hopen, hresolved⟩ := hproper hsplit
    obtain ⟨hcreated, hnot_closed⟩ := hleads.used (Or.inl rfl) (hmapped hsplit)
    refine ⟨plugin_handle, hopen, hinvariant.opened hsplit hopen hcreated, fun hclosed => ?_, haddress, hresolved,
      hcontext⟩
    exact List.count_eq_zero.mp hnot_closed (List.mem_map.mpr ⟨_, hclosed, rfl⟩)
  · have hopen := hproper hsplit
    obtain ⟨hcreated, hnot_closed, hleft⟩ := hleads.destroyed (hmapped hsplit)
    refine ⟨hopen, hinvariant.opened hsplit hopen hcreated, fun closed hclosed => ?_, hleft,
      fun thread address call hcall => ?_⟩
    · exact List.count_eq_zero.mp hnot_closed (List.mem_map.mpr ⟨_, hclosed, rfl⟩)
    · exact (hleads.not_used_after (hmapped hsplit)).1 (List.mem_map.mpr ⟨_, hcall, rfl⟩)
  · cases hplugin : host.run.plugin with
    | none => exact (hinvariant.unmanaged hplugin).2
    | some mgr => exact absurd hreturned (hinvariant.run.live mgr hplugin).2.2.1

/-- A library whose functions have the lengths of their names as addresses. -/
def sized_linker : plugin.Linker :=
  { dlopen := fun _ => some 1, dlsym := fun _ name => some name.length, init_successful := true, context := 7 }

theorem plugin_code_loaded_interrupted : ∃ host : Host BoundedBuffer,
    host.events = [.dlopen (some 1), .call none (some 15) .ufh_plugin_init, .returned none,
      .call (some 0) (some 13) (.ufh_fence (some 7) { function := .ufh_fence_off, nodename := [0x61] }),
      .returned (some 0), .call none (some 18) (.ufh_plugin_destroy (some 7)), .returned none, .dlclose 1] ∧
    (host.events.map plugin.Event.lifetime).count .destroy = host.run.plugin_calls.count (.create true) := by
  obtain ⟨host, hreached, hfound⟩ := exists_reachesFrom_of_run
    (by decide +kernel : ((transition.run (step sized_linker []) (initial BoundedBuffer (.filled 0xA5))
      Run.interrupted_run).any fun host => host.run.stage = .returned ∧
        host.events = [.dlopen (some 1), .call none (some 15) .ufh_plugin_init, .returned none,
          .call (some 0) (some 13) (.ufh_fence (some 7) { function := .ufh_fence_off, nodename := [0x61] }),
          .returned (some 0), .call none (some 18) (.ufh_plugin_destroy (some 7)), .returned none,
          .dlclose 1]) = true)
  obtain ⟨hreturned, hevents⟩ := of_decide_eq_true hfound
  exact ⟨host, hevents, (plugin_code_loaded hreached).2.2 hreturned⟩

end Host

end Server

end ufh
