import UniversalFencingHub.Properties.CloseFd
import UniversalFencingHub.Properties.Progress
import UniversalFencingHub.ServerConnector.Release
import UniversalFencingHub.ServerConnector.Separate
import UniversalFencingHub.Threads.Serving

open transition

namespace ufh

namespace GenAlloc

/-- `deallocate` puts no object into the pool but the one that it was given. -/
theorem mem_free_objects_deallocate {T : Type} {alloc : GenAlloc T} {obj other : T}
    (hmem : other ∈ (alloc.deallocate obj).free_objects) : other ∈ alloc.free_objects ∨ other = obj := by
  unfold deallocate at hmem
  split at hmem
  · obtain ⟨index, hindex, rfl⟩ := List.mem_take_iff_getElem.mp hmem
    by_cases hlast : alloc.alloc_index = index
    · subst hlast
      exact Or.inr (List.getElem_set_self ..)
    · rw [List.getElem_set_ne hlast]
      refine Or.inl (List.mem_take_iff_getElem.mpr ⟨index, ?_, rfl⟩)
      simp only [List.length_set] at hindex
      omega
  · exact Or.inl hmem

end GenAlloc

namespace sys

variable {open_fds : List Int} {fd closed : Int}

theorem close_fd_nodup (h : open_fds.Nodup) : (close_fd open_fds closed).1.Nodup := by
  unfold close_fd
  split
  · exact h.filter _
  · exact h

theorem of_mem_close_fd (hmem : fd ∈ (close_fd open_fds closed).1) : fd ∈ open_fds ∧ (0 ≤ closed → fd ≠ closed) := by
  unfold close_fd at hmem
  split at hmem
  · obtain ⟨hopen, hne⟩ := List.mem_filter.mp hmem
    exact ⟨hopen, fun _ => of_decide_eq_true hne⟩
  · next hinvalid => exact ⟨hmem, fun hvalid => absurd hvalid hinvalid⟩

end sys

/-- The positions at which the server socket is open. -/
def SelectorPosition.has_socket : SelectorPosition → Bool
  | .cleanup_socket => true
  | position => position.looping

theorem SelectorPosition.Next.has_fds {position next : SelectorPosition} {action : Action}
    (h : position.Next action next) (haction : action.on_own_fds = false) :
    (next.has_socket = false → position.has_socket = false) ∧ (next.has_pipe = false → position.has_pipe = false) := by
  cases h with
  | opened => cases haction
  | not_opened => cases haction
  | socket_closed => cases haction
  | com_closed => cases haction
  | com_emptied => cases haction
  | _ => exact ⟨fun hsocket => (by cases hsocket <;> rfl), fun hpipe => (by cases hpipe <;> rfl)⟩

namespace State

variable {Buf : Type} [CharBuffer Buf] {before after state : State Buf} {place : ClientPtr → Place}
  {stamp : ClientPtr → Nat} {action : Action} {client : ClientPtr} {memory : ClientMemory}
  {used : ClientPtr → Prop}

/-- The connector's own descriptors are closed before `init()` and after `cleanup()`. -/
structure OwnClosed (state : State Buf) : Prop where
  socket_fd : state.selector.has_socket = false → state.socket_fd = sys.FD_NONE
  trigger : state.selector.has_pipe = false → state.trigger_read = sys.FD_NONE ∧ state.trigger_write = sys.FD_NONE

theorem OwnClosed.act (h : before.OwnClosed) (hact : before.act action = some after) : after.OwnClosed := by
  cases hother : action.on_own_fds with
  | false =>
    have hfds := act_own_fds hact hother
    simp only [own_fds, List.cons.injEq, and_true] at hfds
    obtain ⟨hsocket, hread, hwrite⟩ := hfds
    have hmoved : (after.selector.has_socket = false → before.selector.has_socket = false) ∧
        (after.selector.has_pipe = false → before.selector.has_pipe = false) := by
      cases haction : action.by_selector with
      | false =>
        rw [(act_aside hact haction).selector]
        exact ⟨id, id⟩
      | true => exact (act_next hact haction).has_fds hother
    refine ⟨fun hposition => ?_, fun hposition => ?_⟩
    · rw [hsocket]
      exact h.socket_fd (hmoved.1 hposition)
    · rw [hread, hwrite]
      exact h.trigger (hmoved.2 hposition)
  | true =>
    cases action with
    | init socket_fd trigger_read trigger_write failed =>
      obtain ⟨_, rfl⟩ := only_if_eq_some.mp hact
      cases failed with
      | false => exact ⟨(fun h => by cases h), (fun h => by cases h)⟩
      | true => exact ⟨(fun h => by cases h), (fun h => by cases h)⟩
    | cleanup_socket =>
      obtain ⟨_, rfl⟩ := only_if_eq_some.mp hact
      exact ⟨fun _ => rfl, (fun h => by cases h)⟩
    | cleanup_com =>
      obtain ⟨hposition, rfl⟩ := only_if_eq_some.mp hact
      have hsocket : before.socket_fd = sys.FD_NONE := h.socket_fd (by rw [hposition]; rfl)
      cases hfirst : before.connector.com_remove_first.1 with
      | some client =>
        rw [cleanup_com_eq hfirst]
        exact ⟨h.socket_fd, h.trigger⟩
      | none =>
        rw [cleanup_com_empty (Prod.ext hfirst (com_remove_first_none hfirst))]
        exact ⟨fun _ => hsocket, fun _ => ⟨rfl, rfl⟩⟩
    | _ => cases hother

theorem Reachable.own_closed (h : state.Reachable) : state.OwnClosed := by
  apply ReachesFrom.invariant h
  · exact fun memory => ⟨fun _ => rfl, fun _ => ⟨rfl, rfl⟩⟩
  · intro before action after hbefore hstep
    exact hbefore.act (step_eq_some.mp hstep).2

/-- Every open descriptor has its owner, and no object in the pool holds data of a connection: it is wiped, or it has
not been used since the constructor. -/
structure Released (memory : ClientMemory) (used : ClientPtr → Prop) (state : State Buf) : Prop where
  nodup : state.connector.open_fds.Nodup
  owner : ∀ fd ∈ state.connector.open_fds,
    0 ≤ fd ∧ (fd ∈ state.own_fds ∨ ∃ client, (state.connector.clients client).socket_fd = fd)
  blank : ∀ client ∈ state.connector.client_pool.free_objects,
    (state.connector.clients client).Wiped ∨
      ¬ used client ∧ state.connector.clients client = .new Buf (memory.io_buffer client)

theorem Released.closed (h : before.Released memory used) (hfree : client ∈ before.connector.client_pool.free_objects) :
    (before.connector.clients client).socket_fd = sys.FD_NONE := by
  obtain hwiped | ⟨_, hnew⟩ := h.blank client hfree
  · exact hwiped.socket_fd
  · rw [hnew]
    rfl

theorem Released.keep (h : before.Released memory used) (hopen : after.connector.open_fds = before.connector.open_fds)
    (hpool : after.connector.client_pool = before.connector.client_pool)
    (hsockets : ∀ client, (after.connector.clients client).socket_fd = (before.connector.clients client).socket_fd)
    (hfree : ∀ client ∈ before.connector.client_pool.free_objects,
      after.connector.clients client = before.connector.clients client)
    (hown : after.own_fds = before.own_fds) : after.Released memory used := by
  refine ⟨hopen ▸ h.nodup, fun fd hfd => ?_, fun client hclient => ?_⟩
  · rw [hopen] at hfd
    rw [hown]
    simp only [hsockets]
    exact h.owner fd hfd
  · rw [hpool] at hclient
    rw [hfree client hclient]
    exact h.blank client hclient

theorem Released.same (h : before.Released memory used) (hopen : after.connector.open_fds = before.connector.open_fds)
    (hpool : after.connector.client_pool = before.connector.client_pool)
    (hclients : after.connector.clients = before.connector.clients) (hown : after.own_fds = before.own_fds) :
    after.Released memory used :=
  h.keep hopen hpool (fun _ => by rw [hclients]) (fun _ _ => by rw [hclients]) hown

/-- An operation on a client in use. -/
theorem Released.releases (h : before.Released memory used)
    (hreleases : ReleasesBoth client before.connector after.connector)
    (haffects : Affects client before.connector after.connector)
    (hused : client ∉ before.connector.client_pool.free_objects) (hown : after.own_fds = before.own_fds) :
    after.Released memory used := by
  cases hreleases with
  | kept hopen hpool hsocket =>
    refine h.keep hopen hpool (fun other => ?_) (fun other hother => ?_) hown
    · by_cases hsame : other = client
      · rw [hsame, hsocket]
      · rw [haffects.others other hsame]
    · exact haffects.others other (fun heq => hused (heq ▸ hother))
  | closed hopen hpool hwiped =>
    refine ⟨hopen ▸ sys.close_fd_nodup h.nodup, fun fd hfd => ?_, fun other hother => ?_⟩
    · rw [hopen] at hfd
      obtain ⟨hmem, hne⟩ := sys.of_mem_close_fd hfd
      obtain ⟨hvalid, howner⟩ := h.owner fd hmem
      rw [hown]
      refine ⟨hvalid, howner.imp_right ?_⟩
      rintro ⟨other, hsocket⟩
      have hother : other ≠ client := by
        rintro rfl
        exact hne (hsocket ▸ hvalid) hsocket.symm
      exact ⟨other, by rw [haffects.others other hother, hsocket]⟩
    · rw [hpool] at hother
      obtain hother | rfl := GenAlloc.mem_free_objects_deallocate hother
      · rw [haffects.others other (fun heq => hused (heq ▸ hother))]
        exact h.blank other hother
      · exact Or.inl hwiped

/-- The connector closes one of its own descriptors. -/
theorem Released.close_own (h : before.Released memory used) {closed : Int} (hclosed : closed ∈ before.own_fds)
    (hopen : after.connector.open_fds = (sys.close_fd before.connector.open_fds closed).1)
    (hclients : after.connector.clients = before.connector.clients)
    (hpool : after.connector.client_pool = before.connector.client_pool)
    (hown : ∀ fd ∈ before.own_fds, fd ≠ closed → fd ∈ after.own_fds) : after.Released memory used := by
  refine ⟨hopen ▸ sys.close_fd_nodup h.nodup, fun fd hfd => ?_, ?_⟩
  · rw [hopen] at hfd
    obtain ⟨hmem, hne⟩ := sys.of_mem_close_fd hfd
    obtain ⟨hvalid, hfd | howner⟩ := h.owner fd hmem
    · refine ⟨hvalid, Or.inl (hown fd hfd ?_)⟩
      rintro rfl
      exact hne hvalid rfl
    · rw [hclients]
      exact ⟨hvalid, Or.inr howner⟩
  · rw [hpool, hclients]
    exact h.blank

theorem Released.init (h : before.Released memory used) (hclosed : before.OwnClosed)
    (hposition : before.selector = .init) {socket_fd trigger_read trigger_write : Int} {failed : Bool}
    (hpossible : before.init_possible socket_fd trigger_read trigger_write failed) :
    (before.init socket_fd trigger_read trigger_write failed).Released memory used := by
  obtain ⟨hfds, hnodup, _⟩ := hpossible
  have hopened : ∀ fd ∈ [socket_fd, trigger_read, trigger_write].filter (· ≠ sys.FD_NONE),
      fd ∈ [socket_fd, trigger_read, trigger_write] ∧ 0 ≤ fd ∧ fd ∉ before.connector.open_fds := by
    intro fd hfd
    obtain ⟨hmem, hvalid⟩ := List.mem_filter.mp hfd
    exact ⟨hmem, (hfds fd hmem).resolve_left (of_decide_eq_true hvalid)⟩
  refine ⟨List.nodup_append.mpr ⟨hnodup, h.nodup, ?_⟩, fun fd hfd => ?_, h.blank⟩
  · rintro fd hfd _ hother rfl
    exact (hopened fd hfd).2.2 hother
  · obtain hfd | hfd := List.mem_append.mp hfd
    · exact ⟨(hopened fd hfd).2.1, Or.inl (hopened fd hfd).1⟩
    · obtain ⟨hvalid, hown | hclient⟩ := h.owner fd hfd
      · obtain ⟨hread, hwrite⟩ := hclosed.trigger (by rw [hposition]; rfl)
        have hnone : fd = sys.FD_NONE := by
          simpa [own_fds, hclosed.socket_fd (by rw [hposition]; rfl), hread, hwrite] using hown
        rw [hnone] at hvalid
        cases hvalid
      · exact ⟨hvalid, Or.inr hclient⟩

theorem Released.accept (h : before.Released memory used) (hvalid : before.connector.client_pool.Valid) {fd : Int}
    (hpossible : before.accept_possible fd) (haccept : before.connector.accept fd = some (client, after.connector))
    (hown : after.own_fds = before.own_fds) : after.Released memory used := by
  have hopen := accept_open_fds haccept
  unfold Connector.accept at haccept
  split at haccept
  · cases haccept
  · next allocated client_pool hallocate =>
    obtain ⟨rfl, hconnector⟩ := Prod.mk.inj (Option.some.inj haccept)
    obtain ⟨hobjects, _, _⟩ := hvalid.allocate_eq_some hallocate
    have hclients := congrArg Connector.clients hconnector
    have hpool := congrArg Connector.client_pool hconnector
    simp only at hclients hpool
    have hfree : allocated ∈ before.connector.client_pool.free_objects := by simp [hobjects]
    have hnone : (before.connector.clients allocated).socket_fd = sys.FD_NONE := h.closed hfree
    refine ⟨?_, fun opened hopened => ?_, fun other hother => ?_⟩
    · rw [hopen]
      split
      · next hopened =>
        refine List.nodup_cons.mpr ⟨?_, h.nodup⟩
        obtain rfl | ⟨_, hfresh⟩ := hpossible
        · cases hopened
        · exact hfresh
      · exact h.nodup
    · have hkept : ∀ fd ∈ before.connector.open_fds,
          0 ≤ fd ∧ (fd ∈ after.own_fds ∨ ∃ client, (after.connector.clients client).socket_fd = fd) := by
        intro kept hkept
        obtain ⟨hvalid, howner⟩ := h.owner kept hkept
        rw [hown]
        refine ⟨hvalid, howner.imp_right ?_⟩
        rintro ⟨other, rfl⟩
        have hne : other ≠ allocated := by
          rintro rfl
          rw [hnone] at hvalid
          cases hvalid
        exact ⟨other, by rw [← hclients, Function.update_of_ne hne]⟩
      rw [hopen] at hopened
      split at hopened
      · next haccepted =>
        obtain rfl | hopened := List.mem_cons.mp hopened
        · exact ⟨haccepted, Or.inr ⟨allocated, by rw [← hclients, Function.update_self]⟩⟩
        · exact hkept opened hopened
      · exact hkept opened hopened
    · have hne : other ≠ allocated := by
        rintro rfl
        have hnodup := hvalid.nodup
        rw [hobjects] at hnodup
        rw [← hpool] at hother
        exact (List.nodup_append.mp hnodup).2.2 other hother other (List.mem_singleton_self _) rfl
      rw [← hclients, Function.update_of_ne hne]
      refine h.blank other ?_
      rw [hobjects]
      exact List.mem_append_left _ (hpool ▸ hother)

theorem Invariant.free_kept [LawfulCharBuffer Buf] (h : Invariant strict before place stamp)
    (hact : before.act action = some after) (haction : ∀ fd, action ≠ .accept fd)
    (hfree : client ∈ before.connector.client_pool.free_objects) :
    after.connector.clients client = before.connector.clients client :=
  act_clients h hact fun hserved =>
    (h.serves hact hserved).not_free haction ((h.consistent.pooled.free_iff client).mp hfree)

/-- Processing its message leaves the descriptor of a client alone. -/
theorem Invariant.process_socket [LawfulCharBuffer Buf] (h : Invariant strict before place stamp) {thread : Thread}
    (hheld : place client = .held thread .completed) (success_flag : Bool) (other : ClientPtr) :
    ((before.connector.process client success_flag).1.clients other).socket_fd =
      (before.connector.clients other).socket_fd := by
  by_cases hsame : other = client
  · obtain ⟨_, _, hholds⟩ : ∃ earlier message, HoldsMessage (before.connector.clients client)
        (before.connector.record client) earlier message := by
      have hsession := h.consistent.sessions.session client
      rwa [hheld] at hsession
    rw [hsame, process_eq]
    simp only [Function.update_self]
    exact (hholds.received.process success_flag).2.1
  · exact congrArg NetClient.socket_fd (Function.update_of_ne hsame _ _)

theorem Released.act [LawfulCharBuffer Buf] (h : before.Released memory used) (hsound : before.Sound False)
    (hclosed : before.OwnClosed) (hact : before.act action = some after) : after.Released memory used := by
  obtain ⟨place, stamp, hinvariant⟩ := hsound
  have hpooled := hinvariant.consistent.pooled
  have hused : ∀ client, Serves place action client → (∀ fd, action ≠ .accept fd) →
      client ∉ before.connector.client_pool.free_objects :=
    fun client hserves haction hmem => hserves.not_free haction ((hpooled.free_iff client).mp hmem)
  cases hother : action.on_own_fds with
  | true =>
    cases action with
    | init socket_fd trigger_read trigger_write failed =>
      obtain ⟨⟨hposition, hpossible⟩, rfl⟩ := only_if_eq_some.mp hact
      exact h.init hclosed hposition hpossible
    | cleanup_socket =>
      obtain ⟨_, rfl⟩ := only_if_eq_some.mp hact
      refine h.close_own (List.mem_cons_self ..) rfl rfl rfl (fun fd hfd hne => ?_)
      exact List.mem_cons_of_mem _ ((List.mem_cons.mp hfd).resolve_left hne)
    | cleanup_com =>
      obtain ⟨_, rfl⟩ := only_if_eq_some.mp hact
      cases hfirst : before.connector.com_remove_first.1 with
      | some client =>
        rw [cleanup_com_eq hfirst]
        have hserves : Serves place .cleanup_com client := .queued_closed client
          (hinvariant.consistent.linked.head client (com_remove_first_head.symm.trans hfirst)).1
        have hremoved : Affects client before.connector before.connector.com_remove_first.2 := .of_eq rfl rfl
        exact h.releases (.of_kept (releases_close_connection _ client) rfl rfl rfl)
          (hremoved.trans rfl (affects_close_connection _ client))
          (hused client hserves (fun _ h => by cases h)) rfl
      | none =>
        rw [cleanup_com_empty (Prod.ext hfirst (com_remove_first_none hfirst))]
        have hread : State.Released memory used
            { before.close_own before.trigger_read with trigger_read := sys.FD_NONE } := by
          refine h.close_own (by simp [own_fds]) rfl rfl rfl (fun fd hfd hne => ?_)
          simp only [own_fds, List.mem_cons, List.not_mem_nil, or_false] at hfd ⊢
          exact hfd.imp_right fun hfd => Or.inr (hfd.resolve_left hne)
        refine hread.close_own (by simp [own_fds, State.close_own]) rfl rfl rfl (fun fd hfd hne => ?_)
        simp only [own_fds, List.mem_cons, List.not_mem_nil, or_false] at hfd ⊢
        exact hfd.imp_right fun hfd => Or.inl (hfd.resolve_right hne)
    | _ => cases hother
  | false =>
    have hown := act_own_fds hact hother
    have hoperates := act_operates hact
    generalize hconnector : after.connector = connector at hoperates
    cases hoperates with
    | silent => exact h.same (by rw [hconnector]) (by rw [hconnector]) (by rw [hconnector]) hown
    | opened => cases hother
    | socket_closed => cases hother
    | pipe_closed => cases hother
    | queued_closed => cases hother
    | accepted fd client accepted hpossible haccept =>
      exact h.accept hpooled.valid hpossible (hconnector ▸ haccept) hown
    | added client => exact h.same (by rw [hconnector]; rfl) (by rw [hconnector]; rfl) (by rw [hconnector]; rfl) hown
    | enqueued client next_client target =>
      exact h.same (by rw [hconnector]; rfl) (by rw [hconnector]; rfl) (by rw [hconnector]; rfl) hown
    | handed_back id client =>
      exact h.same (by rw [hconnector]; rfl) (by rw [hconnector]; rfl) (by rw [hconnector]; rfl) hown
    | visited client result _ =>
      exact h.releases (hconnector ▸ releases_perform_io) (hconnector ▸ affects_perform_io ..)
        (hused client (hinvariant.serves hact rfl) (fun _ h => by cases h)) hown
    | pending_closed client hfirst =>
      have hserves : Serves place .cleanup_action client := .pending_closed client
        (hinvariant.pending_head (action_remove_first_head.symm.trans hfirst))
      have hreleases : ReleasesBoth client before.connector _ :=
        .of_kept (releases_close_connection before.connector.action_remove_first.2 client) rfl rfl rfl
      have hremoved : Affects client before.connector before.connector.action_remove_first.2 := .of_eq rfl rfl
      exact h.releases (hconnector ▸ hreleases)
        (hconnector ▸ hremoved.trans rfl (affects_close_connection _ client))
        (hused client hserves (fun _ h => by cases h)) hown
    | taken id =>
      obtain ⟨hopen, hpool⟩ := take_action_kept before.connector
      refine h.keep (hconnector ▸ hopen) (hconnector ▸ hpool) (fun client => ?_)
        (fun client => hinvariant.free_kept hact (fun _ h => by cases h)) hown
      rw [hconnector]
      obtain ⟨_, phase, hobject⟩ := take_action_object before.connector client
      rw [hobject]
    | processed id client success_flag =>
      refine h.keep (by rw [hconnector]; rfl) (by rw [hconnector]; rfl) (fun other => ?_)
        (fun client => hinvariant.free_kept hact (fun _ h => by cases h)) hown
      rw [hconnector]
      obtain ⟨hposition, _⟩ := only_if_eq_some.mp hact
      have hheld := (hinvariant.holding (.worker id) client .completed).mp (by rw [State.holding, hposition]; rfl)
      exact hinvariant.process_socket hheld success_flag other
    | dismissed id client =>
      exact h.releases (hconnector ▸ releases_close_connection _ client)
        (hconnector ▸ affects_close_connection _ client)
        (hused client (hinvariant.serves hact rfl) (fun _ h => by cases h)) hown
    | closed id client =>
      exact h.releases (hconnector ▸ releases_close_connection _ client)
        (hconnector ▸ affects_close_connection _ client)
        (hused client (hinvariant.serves hact rfl) (fun _ h => by cases h)) hown

theorem Released.run [LawfulCharBuffer Buf] (h : before.Released memory used) (hbefore : before.Reachable)
    (hrun : Reaches State.step before after) : after.Released memory used := by
  have hknown : ∀ state : State Buf, Reaches State.step before state → state.Sound False ∧ state.OwnClosed := by
    intro state hstate
    have hreached : state.Reachable := ReachesFromWhere.trans hbefore hstate
    exact ⟨hreached.sound, hreached.own_closed⟩
  apply Reaches.invariant_under hrun hknown h
  rintro before action after ⟨hsound, hclosed⟩ hreleased hstep
  exact hreleased.act hsound hclosed (step_eq_some.mp hstep).2

theorem released_of_reaches [LawfulCharBuffer Buf] (h : Reaches State.step (initial Buf memory) state) :
    state.Released memory fun _ => False := by
  have hinitial : (initial Buf memory).Released memory fun _ => False :=
    ⟨List.nodup_nil, nofun, fun _ _ => Or.inr ⟨id, rfl⟩⟩
  exact hinitial.run (.refl memory) h

theorem Reachable.released [LawfulCharBuffer Buf] (h : state.Reachable) :
    ∃ memory, state.Released memory fun _ => False := by
  obtain ⟨memory, hrun⟩ := h
  exact ⟨memory, released_of_reaches hrun⟩

/-- The client objects that are in use. -/
def used_clients (state : State Buf) : List ClientPtr :=
  (List.finRange MAX_CONNECTIONS).filter (· ∉ state.connector.client_pool.free_objects)

/-- The descriptors of the connections that have not ended. -/
def sockets (state : State Buf) : List Int :=
  (state.used_clients.map fun client => (state.connector.clients client).socket_fd).filter (0 ≤ ·)

theorem Invariant.used_clients_length (h : Invariant strict state place stamp) :
    state.used_clients.length + state.connector.client_pool.get_free_count = MAX_CONNECTIONS := by
  have hpooled := h.consistent.pooled
  have hnodup : (state.used_clients ++ state.connector.client_pool.free_objects).Nodup := by
    refine List.nodup_append.mpr ⟨(List.nodup_finRange _).filter _, hpooled.valid.nodup, ?_⟩
    rintro client hused _ hfree rfl
    exact of_decide_eq_true (List.mem_filter.mp hused).2 hfree
  have hperm : (state.used_clients ++ state.connector.client_pool.free_objects).Perm
      (List.finRange MAX_CONNECTIONS) := by
    refine (List.perm_ext_iff_of_nodup hnodup (List.nodup_finRange _)).mpr fun client => ?_
    simp [used_clients, em']
  have hlength := hperm.length_eq
  rwa [List.length_append, hpooled.valid.free_length, List.length_finRange] at hlength

theorem Invariant.sockets_nodup (h : Invariant strict state place stamp) : state.sockets.Nodup := by
  unfold sockets
  rw [List.filter_map]
  refine List.Nodup.map_on ?_ (((List.nodup_finRange _).filter _).filter _)
  intro client hclient other _ hsame
  have hvalid : 0 ≤ (state.connector.clients client).socket_fd := of_decide_eq_true (List.mem_filter.mp hclient).2
  exact h.consistent.sockets.distinct client other hvalid hsame

omit [CharBuffer Buf] in
theorem mem_sockets {fd : Int} : fd ∈ state.sockets ↔
    0 ≤ fd ∧ ∃ client ∉ state.connector.client_pool.free_objects, (state.connector.clients client).socket_fd = fd := by
  simp [sockets, used_clients, and_comm]

theorem Invariant.open_iff (h : Invariant strict state place stamp) (hreleased : state.Released memory used)
    (hown : state.OwnOpen) (fd : Int) :
    fd ∈ state.connector.open_fds ↔ fd ∈ state.own_fds.filter (0 ≤ ·) ++ state.sockets := by
  rw [List.mem_append, List.mem_filter, decide_eq_true_iff, mem_sockets]
  constructor
  · intro hopen
    obtain ⟨hvalid, hfd | ⟨client, hsocket⟩⟩ := hreleased.owner fd hopen
    · exact Or.inl ⟨hfd, hvalid⟩
    · refine Or.inr ⟨hvalid, client, fun hfree => ?_, hsocket⟩
      rw [← hsocket, hreleased.closed hfree] at hvalid
      cases hvalid
  · rintro (⟨hfd, hvalid⟩ | ⟨hvalid, client, _, rfl⟩)
    · exact hown.opened fd hfd hvalid
    · obtain hnone | ⟨_, hopen⟩ := h.consistent.sockets.valid client
      · rw [hnone] at hvalid
        cases hvalid
      · exact hopen

theorem Invariant.owners_nodup (h : Invariant strict state place stamp) (hown : state.OwnOpen) :
    (state.own_fds.filter (0 ≤ ·) ++ state.sockets).Nodup := by
  refine List.nodup_append.mpr ⟨?_, h.sockets_nodup, ?_⟩
  · exact List.pairwise_filter.mpr (hown.distinct.imp fun hne hvalid _ => hne (of_decide_eq_true hvalid))
  · rintro fd hfd _ hsocket rfl
    obtain ⟨hfd, hvalid⟩ := List.mem_filter.mp hfd
    obtain ⟨_, client, _, hclient⟩ := mem_sockets.mp hsocket
    exact h.own.apart fd hfd (of_decide_eq_true hvalid) client hclient

/-- Behind an orderly shutdown all client objects are in the pool. -/
theorem ReachableWhere.all_free [LawfulCharBuffer Buf] (h : state.ReachableWhere Orderly)
    (hfinished : state.selector = .finished) (client : ClientPtr) :
    client ∈ state.connector.client_pool.free_objects := by
  obtain ⟨place, stamp, hinvariant⟩ := ReachableWhere.sound (fun _ _ hcondition => hcondition) h
  have hservice := ReachableWhere.service (h.weaken fun _ _ horderly => horderly.unraised)
  have hcleaned : state.selector.cleaned = true := by
    rw [hfinished]
    rfl
  have hcom := Reachable.cleaned h.reaches hcleaned
  have haction := hservice.drained (SelectorPosition.cleaned_stopped hcleaned).2.1
  have hidle : ∀ id, (state.workers id).holding = none := fun id => by
    rw [(Reachable.standing h.reaches).finished hfinished id]
    rfl
  exact (hinvariant.consistent.pooled.free_iff client).mpr (hinvariant.all_free hcleaned hcom haction hidle client)

/-- Behind an orderly shutdown all descriptors are closed. -/
theorem ReachableWhere.all_closed [LawfulCharBuffer Buf] (h : state.ReachableWhere Orderly)
    (hfinished : state.selector = .finished) : state.connector.open_fds = [] := by
  obtain ⟨memory, hreleased⟩ := Reachable.released h.reaches
  obtain ⟨hread, hwrite⟩ := (Reachable.own_closed h.reaches).trigger (by rw [hfinished]; rfl)
  have hsocket := (Reachable.own_closed h.reaches).socket_fd (by rw [hfinished]; rfl)
  refine List.eq_nil_iff_forall_not_mem.mpr fun fd hopen => ?_
  obtain ⟨hvalid, hfd | ⟨client, hclient⟩⟩ := hreleased.owner fd hopen
  · have hnone : fd = sys.FD_NONE := by simpa [own_fds, hsocket, hread, hwrite] using hfd
    rw [hnone] at hvalid
    cases hvalid
  · rw [← hclient, hreleased.closed (h.all_free hfinished client)] at hvalid
    cases hvalid

/-- No descriptor leaks: the open descriptors are, each once, the connector's own and the sockets of the client
objects in use. Behind an orderly shutdown none is left. -/
theorem descriptors_accounted [LawfulCharBuffer Buf] (h : state.Reachable) :
    state.connector.open_fds.Perm (state.own_fds.filter (0 ≤ ·) ++ state.sockets) ∧
      state.connector.open_fds.length + state.connector.client_pool.get_free_count ≤ MAX_CONNECTIONS + 3 ∧
      (state.ReachableWhere Orderly → state.Ended → state.connector.open_fds = []) := by
  obtain ⟨place, stamp, hinvariant⟩ := Reachable.sound h
  have hown := Reachable.own_open h
  obtain ⟨memory, hreleased⟩ := Reachable.released h
  have hperm : state.connector.open_fds.Perm (state.own_fds.filter (0 ≤ ·) ++ state.sockets) :=
    (List.perm_ext_iff_of_nodup hreleased.nodup (hinvariant.owners_nodup hown)).mpr (hinvariant.open_iff hreleased hown)
  refine ⟨hperm, ?_, fun horderly hend => horderly.all_closed hend.selector⟩
  have hlength := hperm.length_eq
  have hthree : (state.own_fds.filter (0 ≤ ·)).length ≤ 3 := List.length_filter_le ..
  have hsockets : state.sockets.length ≤ state.used_clients.length :=
    (List.length_filter_le ..).trans_eq (List.length_map _)
  have hused := hinvariant.used_clients_length
  rw [List.length_append] at hlength
  omega

/-- Two connections. -/
def connected_run : List Action := Action.startup ++ Action.accept_round 6 23 [] ++ Action.accept_round 7 22 [23]

theorem descriptors_accounted_two : ∃ state : State BoundedBuffer, state.own_fds = [3, 4, 5] ∧
    state.sockets = [7, 6] ∧ state.connector.open_fds.Perm [3, 4, 5, 7, 6] := by
  obtain ⟨state, hreached, hfound⟩ := exists_reachesFrom_of_run
    (by decide +kernel : ((run State.step (State.initial BoundedBuffer (.filled 0xA5)) connected_run).any fun state =>
      state.own_fds = [3, 4, 5] ∧ state.sockets = [7, 6]) = true)
  obtain ⟨hown, hsockets⟩ := of_decide_eq_true hfound
  have hperm := (descriptors_accounted hreached).1
  rw [hown, hsockets] at hperm
  exact ⟨state, hown, hsockets, hperm⟩

/-- What a connection leaves behind: an object in the pool that has been in use before holds no descriptor, no byte of a
message, no node name and no secret. An object that has not been in use may also be as the constructor has left it, with
a receive buffer to which nothing has been written. -/
theorem pool_wiped [LawfulCharBuffer Buf] {first last : State Buf}
    (hfirst : Reaches State.step (initial Buf memory) first) (hrun : Reaches State.step first last)
    (hfree : client ∈ last.connector.client_pool.free_objects) :
    (last.connector.clients client).Wiped ∨ client ∈ first.connector.client_pool.free_objects ∧
      last.connector.clients client = .new Buf (memory.io_buffer client) := by
  have hfirst_released := released_of_reaches hfirst
  have hused : first.Released memory fun client => client ∉ first.connector.client_pool.free_objects :=
    { hfirst_released with
      blank := fun client hclient =>
        (hfirst_released.blank client hclient).imp_right (And.imp_left fun _ => not_not_intro hclient) }
  exact ((hused.run ⟨memory, hfirst⟩ hrun).blank client hfree).imp_right (And.imp_left not_not.mp)

/-- A connection. -/
def secret_connect : List Action := Action.startup ++ Action.accept_round 6 23 []

/-- A request with a secret on it, of which the reply has been sent. -/
def secret_run : List Action :=
  Action.round [6] [] [] [.visit 23 (.received [0, 0x81, 0, 26])] ++
    Action.round [6] [] [] (Action.complete 23 none
      (0 :: 10 :: protocol.NODENAME ++ [protocol.SPLIT_BYTE, 0x78] ++
        0 :: 8 :: protocol.SECRET ++ [protocol.SPLIT_BYTE, 0x73])) ++
    Action.work 0 23 true ++ [.worker_hand_back_lock 0 23, .worker_hand_back 0 23] ++
    Action.round [4] [6] [.drain, .drain] [.visit 23 (.sent 4)]

theorem pool_wiped_secret : ∃ state : State BoundedBuffer, (state.connector.history 0).dialogue.length = 6 ∧
    (state.connector.clients 23).Wiped := by
  obtain ⟨first, hfirst, hfound⟩ := exists_reaches_of_run
    (by decide +kernel : ((run State.step (State.initial BoundedBuffer (.filled 0xA5)) secret_connect).any
      fun first => 23 ∉ first.connector.client_pool.free_objects ∧ (run State.step first secret_run).any fun last =>
        23 ∈ last.connector.client_pool.free_objects ∧ (last.connector.history 0).dialogue.length = 6) = true)
  simp only [Bool.decide_and, Bool.and_eq_true, decide_eq_true_eq] at hfound
  obtain ⟨hused, hrun⟩ := hfound
  obtain ⟨last, hlast, hfound⟩ := exists_reaches_of_run hrun
  simp only [Bool.and_eq_true, decide_eq_true_eq] at hfound
  obtain ⟨hfree, hdialogue⟩ := hfound
  exact ⟨last, hdialogue, (pool_wiped hfirst hlast hfree).resolve_right fun hunused => hused hunused.1⟩

end State

end ufh
