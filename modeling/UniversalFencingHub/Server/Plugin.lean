import UniversalFencingHub.Client.Arguments
import UniversalFencingHub.Server.Run

open transition

namespace ufh

namespace plugin

/-- The values that the dynamic linker and the initialization of the plugin return. Addresses, handles and
contexts are numbers, and `none` stands for `nullptr`. -/
structure Linker where
  dlopen : Bytes → Option Nat
  dlsym : Nat → Bytes → Option Nat
  init_successful : Bool
  context : Nat

def SYMBOL_INIT : Bytes := client.text ("ufh_plugin_init")

def SYMBOL_DESTROY : Bytes := client.text ("ufh_plugin_destroy")

def SYMBOL_FENCE_OFF : Bytes := client.text ("ufh_fence_off")

def SYMBOL_FENCE_ON : Bytes := client.text ("ufh_fence_on")

def SYMBOL_FENCE_REBOOT : Bytes := client.text ("ufh_fence_reboot")

structure FunctionTable where
  ufh_plugin_init : Option Nat := none
  ufh_plugin_destroy : Option Nat := none
  ufh_fence_off : Option Nat := none
  ufh_fence_on : Option Nat := none
  ufh_fence_reboot : Option Nat := none
  deriving DecidableEq

def load_plugin (linker : Linker) (path : Bytes) (functions : FunctionTable) :
    FunctionTable × Except OsErrorId Nat :=
  match linker.dlopen path with
  | none => (functions, .error .DYN_LOAD_ERROR)
  | some plugin_handle =>
    let tmp_functions : FunctionTable :=
      { ufh_plugin_init := linker.dlsym plugin_handle SYMBOL_INIT
        ufh_plugin_destroy := linker.dlsym plugin_handle SYMBOL_DESTROY
        ufh_fence_off := linker.dlsym plugin_handle SYMBOL_FENCE_OFF
        ufh_fence_on := linker.dlsym plugin_handle SYMBOL_FENCE_ON
        ufh_fence_reboot := linker.dlsym plugin_handle SYMBOL_FENCE_REBOOT }
    if tmp_functions.ufh_plugin_init ≠ none ∧ tmp_functions.ufh_plugin_destroy ≠ none ∧
        tmp_functions.ufh_fence_off ≠ none ∧ tmp_functions.ufh_fence_on ≠ none ∧
        tmp_functions.ufh_fence_reboot ≠ none then (tmp_functions, .ok plugin_handle)
    else (functions, .error .DYN_LOAD_ERROR)

/-- The function pointers after `unload_plugin`. -/
def unload_plugin (functions : FunctionTable) : FunctionTable :=
  { functions with
    ufh_plugin_init := none
    ufh_plugin_destroy := none
    ufh_fence_off := none
    ufh_fence_on := none
    ufh_fence_reboot := none }

/-- A call through a pointer of the function table, with its arguments. -/
inductive Call where
  | ufh_plugin_init
  | ufh_plugin_destroy (context : Option Nat)
  | ufh_fence (context : Option Nat) (call : PluginCall)
  deriving DecidableEq

/-- What happens to the library: it is opened, its functions are called and return, and it is closed. A
call is made by a worker or by the main thread. -/
inductive Event where
  | dlopen (plugin_handle : Option Nat)
  | call (thread : Option WorkerId) (address : Option Nat) (call : Call)
  | returned (thread : Option WorkerId)
  | dlclose (plugin_handle : Nat)
  deriving DecidableEq

/-- The pointer of the function table that a call goes through. -/
def FunctionTable.pointer (functions : FunctionTable) : Call → Option Nat
  | .ufh_plugin_init => functions.ufh_plugin_init
  | .ufh_plugin_destroy _ => functions.ufh_plugin_destroy
  | .ufh_fence _ call =>
    match call.function with
    | .ufh_fence_off => functions.ufh_fence_off
    | .ufh_fence_on => functions.ufh_fence_on
    | .ufh_fence_reboot => functions.ufh_fence_reboot

end plugin

namespace Server

/-- `Server::run` with the library of the plugin: the fields of class `Server`, the handle that class
`PluginMgr` keeps, and what has happened to the library. -/
structure Host (Buf : Type) where
  run : Run Buf
  plugin_functions : plugin.FunctionTable := {}
  plugin_context : Option Nat := none
  plugin_handle : Option Nat := none
  events : List plugin.Event := []

namespace Host

variable {Buf : Type} [CharBuffer Buf]

def initial (Buf : Type) [CharBuffer Buf] (memory : ClientMemory) : Host Buf := { run := Run.initial Buf memory }

/-- The calls of one thread through the function table, and their events. -/
def calls (host : Host Buf) (thread : Option WorkerId) (call : plugin.Call) : plugin.Event :=
  .call thread (host.plugin_functions.pointer call) call

/-- The first part of the constructor of class `PluginMgr`. -/
def load_plugin (linker : plugin.Linker) (path : Bytes) (host : Host Buf) : Host Buf × Bool :=
  let events := host.events ++ [.dlopen (linker.dlopen path)]
  match plugin.load_plugin linker path host.plugin_functions with
  | (plugin_functions, .ok plugin_handle) =>
    ({ host with plugin_functions, plugin_handle := some plugin_handle, events }, true)
  | (plugin_functions, .error _) => ({ host with plugin_functions, events }, false)

/-- The rest of the constructor. When it raises an exception, the handle is lost with the object. -/
def plugin_init (linker : plugin.Linker) (host : Host Buf) : Host Buf :=
  let events := host.events ++ [host.calls none .ufh_plugin_init, .returned none]
  if linker.init_successful then { host with plugin_context := some linker.context, events }
  else { host with plugin_handle := none, events }

/-- The destructor of class `PluginMgr`. -/
def destroy_plugin (host : Host Buf) : Host Buf :=
  match host.run.plugin with
  | none => host
  | some mgr =>
    let host :=
      if mgr.have_plugin_init then
        { host with
          plugin_context := none
          events := host.events ++ [host.calls none (.ufh_plugin_destroy host.plugin_context), .returned none] }
      else host
    match host.plugin_handle with
    | some plugin_handle =>
      { host with
        plugin_functions := plugin.unload_plugin host.plugin_functions
        plugin_handle := none
        events := host.events ++ [.dlclose plugin_handle] }
    | none => host

/-- A worker enters a function of the plugin. -/
def fence (host : Host Buf) (id : WorkerId) : Host Buf :=
  match host.run.state.workers id with
  | .process client =>
    match ((host.run.state.connector.clients client).process_client_message false).call with
    | some call => { host with events := host.events ++ [host.calls (some id) (.ufh_fence host.plugin_context call)] }
    | none => host
  | _ => host

/-- A worker that is in a function of the plugin returns from it. -/
def leave (host : Host Buf) : Action → Host Buf
  | .worker_process id _ _ =>
    if host.run.calling id then { host with events := host.events ++ [.returned (some id)] } else host
  | _ => host

/-- What a step of `Server::run` does with the library, if the step is possible. -/
def library (linker : plugin.Linker) (path : Bytes) (host : Host Buf) : RunAction → Option (Host Buf)
  | .load_plugin success =>
    let (host, loaded) := host.load_plugin linker path
    if success = loaded then some host else none
  | .plugin_init init_successful =>
    if init_successful = linker.init_successful then some (host.plugin_init linker) else none
  | .destroy_plugin => some host.destroy_plugin
  | .call id => some (host.fence id)
  | .server action => some (host.leave action)
  | _ => some host

def step (linker : plugin.Linker) (path : Bytes) (host : Host Buf) (action : RunAction) : Option (Host Buf) :=
  (host.run.step action).bind fun run => (host.library linker path action).map fun host => { host with run }

/-- The states of `Server::run` with the library of the plugin. -/
def Reachable (linker : plugin.Linker) (path : Bytes) (host : Host Buf) : Prop :=
  ReachesFrom (initial Buf) (step linker path) host

end Host

end Server

end ufh
