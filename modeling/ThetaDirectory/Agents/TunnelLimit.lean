import ThetaDirectory.Agents.LdapTunnel

/-!
# The ceiling on an agent's relays

How many relays an agent holds on all its WebSockets, and what is left of a WebSocket's relays behind
its clean-up.  The ceiling is checked on one map, and a message handled late makes a new one, so
both need a condition on the messages that open relays.
-/

namespace ThetaDirectory.Agents

open Library

variable {Ws ConnId AgentId : Type} [DecidableEq Ws] [DecidableEq ConnId] [DecidableEq AgentId]

namespace Tunnel

/-- Does the message open a relay? -/
def opens (state : Tunnel Ws ConnId AgentId) (ws : Ws) (payload : TunnelPayload ConnId) : Bool :=
  match payload.conn_id with
  | none => false
  | some connId =>
      let conns := (state.relays.lookup ws).elim ∅ fun entry => state.conns entry.conns
      !payload.close && payload.data ≠ [] && (conns.lookup connId).isNone &&
        conns.keys.length < MAX_CONNS_PER_AGENT

/-- How many relays of an agent are not destroyed. -/
def live (agentOf : Ws → AgentId) (agentId : AgentId) (state : Tunnel Ws ConnId AgentId) : Nat :=
  state.sockets.countP fun relay => !relay.destroyed && agentOf relay.ws = agentId

/-- No relay of the WebSocket is stored or alive. -/
structure NoRelay (state : Tunnel Ws ConnId AgentId) (ws : Ws) : Prop where
  stored : ∀ connId socket, ¬ state.Stored ws connId socket
  destroyed : ∀ relay ∈ state.sockets, relay.ws = ws → relay.destroyed = true

end Tunnel

/-- The relays with the WebSockets that were cleaned up. -/
structure Watched (Ws ConnId AgentId : Type) where
  tunnel : Tunnel Ws ConnId AgentId
  cleaned : List Ws

def TunnelEvent.watch (agentOf : Ws → AgentId) (event : TunnelEvent Ws ConnId AgentId)
    (state : Watched Ws ConnId AgentId) : Watched Ws ConnId AgentId where
  tunnel := event.apply agentOf state.tunnel
  cleaned :=
    match event with
    | .cleanup ws => ws :: state.cleaned
    | _ => state.cleaned

/-- A message opens a relay only on a WebSocket that was not cleaned up, for an agent with less than
the ceiling on all its WebSockets. -/
def TunnelEvent.Within (agentOf : Ws → AgentId) :
    TunnelEvent Ws ConnId AgentId → Watched Ws ConnId AgentId → Prop
  | .message ws payload, state => state.tunnel.opens ws payload = true →
      ws ∉ state.cleaned ∧ state.tunnel.live agentOf (agentOf ws) < MAX_CONNS_PER_AGENT
  | _, _ => True

set_option linter.unusedSectionVars false

variable {state later : Tunnel Ws ConnId AgentId} {ws own : Ws} {connId : ConnId} {socket map : Nat}
  {agentOf : Ws → AgentId} {agentId : AgentId} {payload : TunnelPayload ConnId}

/-- What opens no relay neither stores a socket nor adds a live one. -/
structure Shrinks (agentOf : Ws → AgentId) (state later : Tunnel Ws ConnId AgentId) : Prop where
  stored : ∀ own connId socket, later.Stored own connId socket → state.Stored own connId socket
  live : ∀ agentId, later.live agentOf agentId ≤ state.live agentOf agentId

theorem Shrinks.refl (state : Tunnel Ws ConnId AgentId) : Shrinks agentOf state state :=
  ⟨fun _ _ _ => id, fun _ => Nat.le_refl _⟩

theorem Shrinks.trans {last : Tunnel Ws ConnId AgentId} (first : Shrinks agentOf state later)
    (second : Shrinks agentOf later last) : Shrinks agentOf state last where
  stored own connId socket stored := first.stored own connId socket (second.stored own connId socket stored)
  live agentId := Nat.le_trans (second.live agentId) (first.live agentId)

theorem countP_modify_le {α : Type} {counted : α → Bool} {change : α → α}
    (keeps : ∀ entry, counted (change entry) = true → counted entry = true) (entries : List α)
    (place : Nat) : (entries.modify place change).countP counted ≤ entries.countP counted := by
  induction entries generalizing place with
  | nil => cases place <;> exact Nat.le_refl _
  | cons entry entries ih =>
      cases place with
      | zero =>
          rw [List.modify_zero_cons, List.countP_cons, List.countP_cons]
          have head := keeps entry
          split <;> split <;> simp_all
      | succ place =>
          rw [List.modify_succ_cons, List.countP_cons, List.countP_cons]
          exact Nat.add_le_add_right (ih place) _

theorem shrinks_destroy : Shrinks agentOf state (state.destroy socket) where
  stored _ _ _ := id
  live _ := by
    apply countP_modify_le
    intro relay counted
    simp at counted

theorem shrinks_delete : Shrinks agentOf state (state.delete map connId socket) := by
  unfold Tunnel.delete
  split
  · refine ⟨?_, fun _ => Nat.le_refl _⟩
    intro own id socket stored
    obtain ⟨entry, isEntry, inMap⟩ := stored
    rw [Tunnel.lookup_erase_conns] at inMap
    split at inMap
    · cases inMap
    · exact ⟨entry, isEntry, inMap⟩
  · exact Shrinks.refl state

theorem shrinks_forget : Shrinks agentOf state (state.forget ws) where
  stored own connId socket stored := by
    obtain ⟨entry, isEntry, inMap⟩ := stored
    by_cases same : own = ws
    · subst same
      cases (AList.lookup_erase _ _).symm.trans isEntry
    · exact ⟨entry, (AList.lookup_erase_ne same).symm.trans isEntry, inMap⟩
  live _ := Nat.le_refl _

theorem shrinks_closeConn : Shrinks agentOf state (state.closeConn map connId) := by
  unfold Tunnel.closeConn
  split
  · exact shrinks_destroy.trans shrinks_delete
  · exact Shrinks.refl state

theorem shrinks_dropEntry : Shrinks agentOf state (state.dropEntry ws) := by
  unfold Tunnel.dropEntry
  split
  · exact Shrinks.refl state
  · refine Shrinks.trans ?_ shrinks_forget
    exact List.foldlRecOn _ _ (Shrinks.refl state) fun _ shrinks _ _ => shrinks.trans shrinks_destroy

/-- A message opens no relay, or one of its own WebSocket. -/
theorem handleTunnel_spec (accounted : state.Accounted) (agentId : AgentId) :
    Shrinks agentOf state (state.handleTunnel agentId ws payload) ∨
      state.opens ws payload = true ∧
        (∀ own, own ≠ ws → ∀ connId socket,
          (state.handleTunnel agentId ws payload).Stored own connId socket →
            state.Stored own connId socket) ∧
        ∀ agent, (state.handleTunnel agentId ws payload).live agentOf agent =
          state.live agentOf agent + if agentOf ws = agent then 1 else 0 := by
  unfold Tunnel.handleTunnel Tunnel.opens
  cases isId : payload.conn_id with
  | none => exact Or.inl (Shrinks.refl state)
  | some connId =>
      rcases made : Tunnel.relayFor agentId ws state with ⟨map, next⟩
      have spec : Tunnel.Moves (fun _ _ => True) state next ∧ _ := Tunnel.relayFor_spec accounted made
      obtain ⟨first, sockets, stored, conns, entry, isEntry, isMap⟩ := spec
      have isHome : next.home map = some ws := isMap ▸ first.accounted.entries ws entry isEntry
      have sameLive (agent : AgentId) : next.live agentOf agent = state.live agentOf agent :=
        congrArg (List.countP _) sockets
      have shrinks : Shrinks agentOf state next := ⟨stored, fun agent => Nat.le_of_eq (sameLive agent)⟩
      dsimp only
      split
      · apply Or.inl
        apply shrinks.trans
        split
        · exact shrinks_closeConn.trans shrinks_forget
        · exact shrinks_closeConn
      · rename_i notClose
        split
        · exact Or.inl shrinks
        · rename_i given
          split
          · rename_i free
            refine Or.inr ⟨?_, ?_, ?_⟩
            · rw [← conns]
              simp [notClose, given, free.1, free.2]
            · intro own other connId socket isStored
              apply stored own connId socket
              obtain ⟨found, isFound, inMap⟩ := isStored
              rw [Tunnel.lookup_connect isHome] at inMap
              split at inMap
              · rename_i here
                have sameHome := first.accounted.entries own found isFound
                rw [here.1, isHome] at sameHome
                exact absurd (Option.some.inj sameHome).symm other
              · exact ⟨found, isFound, inMap⟩
            · intro agent
              rw [← sameLive]
              unfold Tunnel.live Tunnel.connect
              dsimp only
              rw [List.countP_append, List.countP_singleton]
              congr 1
              simp
          · exact Or.inl shrinks

/-- What every step keeps. -/
structure Watched.Bounded (agentOf : Ws → AgentId) (state : Watched Ws ConnId AgentId) : Prop where
  accounted : state.tunnel.Accounted
  live : ∀ agentId, state.tunnel.live agentOf agentId ≤ MAX_CONNS_PER_AGENT
  cleaned : ∀ ws ∈ state.cleaned, ∀ connId socket, ¬ state.tunnel.Stored ws connId socket

theorem Watched.Bounded.of_shrinks {state : Watched Ws ConnId AgentId} (bounded : state.Bounded agentOf)
    (accounted : later.Accounted) (shrinks : Shrinks agentOf state.tunnel later) :
    Watched.Bounded agentOf ⟨later, state.cleaned⟩ where
  accounted := accounted
  live agentId := Nat.le_trans (shrinks.live agentId) (bounded.live agentId)
  cleaned ws member connId socket stored :=
    bounded.cleaned ws member connId socket (shrinks.stored ws connId socket stored)

theorem not_stored_dropEntry (connId : ConnId) (socket : Nat) :
    ¬ (state.dropEntry ws).Stored ws connId socket := by
  intro stored
  obtain ⟨entry, isEntry, -⟩ := stored
  unfold Tunnel.dropEntry at isEntry
  split at isEntry
  · rename_i none
    rw [none] at isEntry
    cases isEntry
  · cases (AList.lookup_erase _ _).symm.trans isEntry

theorem shrinks_dropConn : Shrinks agentOf state (state.dropConn socket) := by
  unfold Tunnel.dropConn
  split
  · exact Shrinks.refl state
  · exact shrinks_delete.trans shrinks_destroy

theorem shrinks_closed : Shrinks agentOf state (state.closed socket) := by
  unfold Tunnel.closed
  split
  · exact Shrinks.refl state
  · dsimp only
    split
    · split
      · exact (shrinks_destroy.trans shrinks_delete).trans shrinks_forget
      · exact shrinks_destroy.trans shrinks_delete
    · exact shrinks_destroy.trans shrinks_delete

theorem bounded_watch {state : Watched Ws ConnId AgentId} (event : TunnelEvent Ws ConnId AgentId)
    (bounded : state.Bounded agentOf) (within : event.Within agentOf state) :
    (event.watch agentOf state).Bounded agentOf := by
  have accounted := (@moves_apply _ _ _ _ _ _ agentOf _ event bounded.accounted).accounted
  cases event with
  | data socket => exact bounded.of_shrinks accounted (Shrinks.refl _)
  | timeout socket => exact bounded.of_shrinks accounted shrinks_dropConn
  | error socket => exact bounded.of_shrinks accounted shrinks_destroy
  | close socket => exact bounded.of_shrinks accounted shrinks_closed
  | deregister agentId =>
      refine bounded.of_shrinks accounted ?_
      exact List.foldlRecOn _ _ (Shrinks.refl _) fun _ shrinks _ _ => shrinks.trans shrinks_dropEntry
  | cleanup ws =>
      have dropped := bounded.of_shrinks accounted shrinks_dropEntry
      refine ⟨accounted, dropped.live, fun own member connId socket => ?_⟩
      rcases List.mem_cons.mp member with rfl | before
      · exact not_stored_dropEntry connId socket
      · exact dropped.cleaned own before connId socket
  | message ws payload =>
      rcases @handleTunnel_spec _ _ _ _ _ _ _ ws agentOf payload bounded.accounted (agentOf ws) with
        shrinks | ⟨opens, stored, live⟩
      · exact bounded.of_shrinks accounted shrinks
      · obtain ⟨notCleaned, room⟩ := within opens
        refine ⟨accounted, fun agent => ?_, fun own member connId socket isStored => ?_⟩
        · refine Nat.le_trans (Nat.le_of_eq (live agent)) ?_
          split
          · rename_i same
            exact same ▸ room
          · exact bounded.live agent
        · have other : own ≠ ws := fun same => notCleaned (same ▸ member)
          exact bounded.cleaned own member connId socket (stored own other connId socket isStored)

/-- What the claimed bound says of a state: no agent holds more relays than the ceiling, and none are
left of a WebSocket that was cleaned up. -/
def Watched.InBounds (agentOf : Ws → AgentId) (state : Watched Ws ConnId AgentId) : Prop :=
  (∀ agentId, state.tunnel.live agentOf agentId ≤ MAX_CONNS_PER_AGENT) ∧
    ∀ ws ∈ state.cleaned, state.tunnel.NoRelay ws

theorem Watched.Bounded.inBounds {state : Watched Ws ConnId AgentId} (bounded : state.Bounded agentOf) :
    state.InBounds agentOf := by
  refine ⟨bounded.live, fun ws member => ⟨bounded.cleaned ws member, fun relay listed isWs => ?_⟩⟩
  obtain ⟨socket, found⟩ := List.getElem?_of_mem listed
  by_contra isLive
  have stored := (bounded.accounted.stored_iff found (Bool.not_eq_true _ ▸ isLive)).mpr ⟨rfl, rfl⟩
  exact bounded.cleaned ws member relay.connId socket (isWs ▸ stored)

def Watched.start : Watched Ws ConnId AgentId := ⟨Tunnel.start, []⟩

theorem bounded_run (agentOf : Ws → AgentId) (events : List (TunnelEvent Ws ConnId AgentId))
    (within : ∀ step ∈ Runs.steps (TunnelEvent.watch agentOf) events Watched.start,
      step.operation.Within agentOf step.before) :
    ∀ step ∈ Runs.steps (TunnelEvent.watch agentOf) events Watched.start,
      step.after.InBounds agentOf := by
  have initial : (Watched.start : Watched Ws ConnId AgentId).Bounded agentOf :=
    ⟨Tunnel.accounted_start, fun _ => Nat.zero_le _, fun _ member => nomatch member⟩
  intro step member
  exact (Runs.forall_steps_inv initial within (fun event _ => bounded_watch event) step member).2.inBounds

/-- A message with data. -/
def opening (ws connId : Nat) : TunnelEvent Nat Nat Nat := .message ws ⟨some connId, false, [48]⟩

instance (event : TunnelEvent Nat Nat Nat) (state : Watched Nat Nat Nat) :
    Decidable (event.Within (fun _ => 0) state) :=
  match event with
  | .message ws payload => inferInstanceAs (Decidable (state.tunnel.opens ws payload = true →
      ws ∉ state.cleaned ∧ state.tunnel.live (fun _ => 0) 0 < MAX_CONNS_PER_AGENT))
  | .data _ | .timeout _ | .error _ | .close _ | .cleanup _ | .deregister _ =>
      inferInstanceAs (Decidable True)

theorem bounded_two_connections : List.Forall (fun step => step.after.InBounds fun _ => 0)
    (Runs.steps (TunnelEvent.watch fun _ => 0)
      [opening 1 7, opening 2 7, .cleanup 1, .close 0, opening 2 8] Watched.start) :=
  List.forall_iff_forall_mem.mpr (bounded_run _ _ (by decide +kernel))

/-- Two connections of an agent hold more than its ceiling together, and a late message opens a relay
behind the clean-up. -/
theorem not_bounded :
    ¬ List.Forall (fun step => step.after.InBounds fun _ => 0)
      (Runs.steps (TunnelEvent.watch fun _ => 0) ((List.range 64).map (opening 1) ++ [opening 2 1])
        Watched.start) ∧
    ¬ List.Forall (fun step => step.after.InBounds fun _ => 0)
      (Runs.steps (TunnelEvent.watch fun _ => 0) [opening 1 7, .cleanup 1, opening 1 7]
        Watched.start) := by
  constructor
  · intro all
    obtain ⟨step, member, many⟩ : ∃ step ∈ Runs.steps (TunnelEvent.watch fun _ => 0)
        ((List.range 64).map (opening 1) ++ [opening 2 1]) Watched.start,
          64 < step.after.tunnel.live (fun _ => 0) 0 := by decide +kernel
    exact Nat.not_le_of_lt many ((List.forall_iff_forall_mem.mp all step member).1 0)
  · intro all
    obtain ⟨step, member, cleaned, relay, listed, isWs, live⟩ : ∃ step ∈ Runs.steps
        (TunnelEvent.watch fun _ => 0) [opening 1 7, .cleanup 1, opening 1 7] Watched.start,
          1 ∈ step.after.cleaned ∧ ∃ relay ∈ step.after.tunnel.sockets,
            relay.ws = 1 ∧ relay.destroyed = false := by decide +kernel
    have gone := ((List.forall_iff_forall_mem.mp all step member).2 1 cleaned).destroyed relay listed isWs
    exact Bool.false_ne_true (live.symm.trans gone)

end ThetaDirectory.Agents
