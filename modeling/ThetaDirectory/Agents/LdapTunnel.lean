import Mathlib.Data.List.AList
import ThetaDirectory.Library.Runs

/-!
# Tunnelled LDAP relays

`utils/ldap_tunnel.js`: the relay sockets that agents' messages open, the maps they are stored in,
and what messages, socket events and clean-ups do to them.  Sockets and maps have an identity, which
is their place in a list.  What is sent to an agent is left out.
-/

namespace ThetaDirectory.Agents

open Library

variable {Ws ConnId AgentId : Type} [DecidableEq Ws] [DecidableEq ConnId] [DecidableEq AgentId]

def MAX_CONNS_PER_AGENT : Nat := 64

/-- A relay socket, with what its handlers were made for. -/
structure RelaySocket (Ws ConnId : Type) where
  ws : Ws
  conns : Nat
  connId : ConnId
  destroyed : Bool

/-- A map `conns`, and the WebSocket it was made for. -/
structure RelayMap (Ws ConnId : Type) where
  ws : Ws
  sockets : AList fun _ : ConnId => Nat

structure RelayEntry (AgentId : Type) where
  agentId : AgentId
  conns : Nat

structure Tunnel (Ws ConnId AgentId : Type) where
  sockets : List (RelaySocket Ws ConnId)
  maps : List (RelayMap Ws ConnId)
  relays : AList fun _ : Ws => RelayEntry AgentId

/-- The fields of an `ldap_tunnel` message: no id is a value that counts as false, and the data are
decoded. -/
structure TunnelPayload (ConnId : Type) where
  conn_id : Option ConnId
  close : Bool
  data : List UInt8

namespace Tunnel

/-- `net.Socket.destroy` -/
def destroy (state : Tunnel Ws ConnId AgentId) (socket : Nat) : Tunnel Ws ConnId AgentId :=
  { state with sockets := state.sockets.modify socket fun old => { old with destroyed := true } }

/-- The entries of a map. -/
def conns (state : Tunnel Ws ConnId AgentId) (map : Nat) : AList fun _ : ConnId => Nat :=
  (state.maps[map]?).elim ∅ RelayMap.sockets

/-- The WebSocket a map was made for. -/
def home (state : Tunnel Ws ConnId AgentId) (map : Nat) : Option Ws := (state.maps[map]?).map RelayMap.ws

def change (state : Tunnel Ws ConnId AgentId) (map : Nat)
    (update : (AList fun _ : ConnId => Nat) → AList fun _ : ConnId => Nat) : Tunnel Ws ConnId AgentId :=
  { state with maps := state.maps.modify map fun old => { old with sockets := update old.sockets } }

/-- `conns.delete(connId)`, where the map holds the socket. -/
def delete (state : Tunnel Ws ConnId AgentId) (map : Nat) (connId : ConnId) (socket : Nat) :
    Tunnel Ws ConnId AgentId :=
  if (state.conns map).lookup connId = some socket then state.change map (AList.erase connId) else state

def forget (state : Tunnel Ws ConnId AgentId) (ws : Ws) : Tunnel Ws ConnId AgentId :=
  { state with relays := state.relays.erase ws }

def relayFor (agentId : AgentId) (ws : Ws) (state : Tunnel Ws ConnId AgentId) :
    Nat × Tunnel Ws ConnId AgentId :=
  match state.relays.lookup ws with
  | some entry => (entry.conns, state)
  | none =>
      (state.maps.length, { state with
        maps := state.maps ++ [⟨ws, ∅⟩]
        relays := state.relays.insert ws ⟨agentId, state.maps.length⟩ })

/-- `net.connect`, with the socket stored under its id. -/
def connect (state : Tunnel Ws ConnId AgentId) (ws : Ws) (map : Nat) (connId : ConnId) :
    Tunnel Ws ConnId AgentId :=
  { state.change map (AList.insert connId state.sockets.length) with
    sockets := state.sockets ++ [⟨ws, map, connId, false⟩] }

/-- The end of a connection. -/
def closeConn (state : Tunnel Ws ConnId AgentId) (map : Nat) (connId : ConnId) :
    Tunnel Ws ConnId AgentId :=
  match (state.conns map).lookup connId with
  | some socket => (state.destroy socket).delete map connId socket
  | none => state

def handleTunnel (agentId : AgentId) (ws : Ws) (payload : TunnelPayload ConnId)
    (state : Tunnel Ws ConnId AgentId) : Tunnel Ws ConnId AgentId :=
  match payload.conn_id with
  | none => state
  | some connId =>
      let (map, state) := relayFor agentId ws state
      if payload.close then
        let state := state.closeConn map connId
        if (state.conns map).keys.length = 0 then state.forget ws else state
      else if payload.data = [] then state
      else if (state.conns map).lookup connId = none ∧
          (state.conns map).keys.length < MAX_CONNS_PER_AGENT then
        state.connect ws map connId
      else state

/-- `dropConn`, which a timeout calls. -/
def dropConn (state : Tunnel Ws ConnId AgentId) (socket : Nat) : Tunnel Ws ConnId AgentId :=
  match state.sockets[socket]? with
  | none => state
  | some relay => (state.delete relay.conns relay.connId socket).destroy socket

/-- The handler of `close`, which comes when the socket is gone. -/
def closed (state : Tunnel Ws ConnId AgentId) (socket : Nat) : Tunnel Ws ConnId AgentId :=
  match state.sockets[socket]? with
  | none => state
  | some relay =>
      let state := (state.destroy socket).delete relay.conns relay.connId socket
      match state.relays.lookup relay.ws with
      | some entry =>
          if entry.conns = relay.conns ∧ (state.conns relay.conns).keys.length = 0 then
            state.forget relay.ws
          else state
      | none => state

/-- Destroy every socket of a WebSocket's entry and drop the entry. -/
def dropEntry (state : Tunnel Ws ConnId AgentId) (ws : Ws) : Tunnel Ws ConnId AgentId :=
  match state.relays.lookup ws with
  | none => state
  | some entry =>
      (((state.conns entry.conns).entries.map Sigma.snd).foldl destroy state).forget ws

def cleanup (agentId : AgentId) (ws : Option Ws) (state : Tunnel Ws ConnId AgentId) :
    Tunnel Ws ConnId AgentId :=
  match ws with
  | some ws => state.dropEntry ws
  | none =>
      (state.relays.entries.filter fun entry => entry.2.agentId = agentId).foldl
        (fun state entry => state.dropEntry entry.1) state

end Tunnel

/-! ## Events -/

/-- What the relays see.  A socket event names the socket. -/
inductive TunnelEvent (Ws ConnId AgentId : Type) where
  | message (ws : Ws) (payload : TunnelPayload ConnId)
  | data (socket : Nat)
  | timeout (socket : Nat)
  | error (socket : Nat)
  | close (socket : Nat)
  | cleanup (ws : Ws)
  | deregister (agentId : AgentId)

/-- Every WebSocket speaks for one agent. -/
def TunnelEvent.apply (agentOf : Ws → AgentId) :
    TunnelEvent Ws ConnId AgentId → Tunnel Ws ConnId AgentId → Tunnel Ws ConnId AgentId
  | message ws payload, state => state.handleTunnel (agentOf ws) ws payload
  | data _, state => state
  | timeout socket, state => state.dropConn socket
  | error socket, state => state.destroy socket
  | close socket, state => state.closed socket
  | cleanup ws, state => state.cleanup (agentOf ws) (some ws)
  | deregister agentId, state => state.cleanup agentId none

set_option linter.unusedSectionVars false

/-! ## Accounting -/

namespace Tunnel

/-- The socket is stored in the entry of a WebSocket, under an id. -/
def Stored (state : Tunnel Ws ConnId AgentId) (ws : Ws) (connId : ConnId) (socket : Nat) : Prop :=
  ∃ entry, state.relays.lookup ws = some entry ∧
    (state.conns entry.conns).lookup connId = some socket

/-- Every socket that is not destroyed is stored where its message put it. -/
structure Accounted (state : Tunnel Ws ConnId AgentId) : Prop where
  live : ∀ (socket : Nat) (relay : RelaySocket Ws ConnId), state.sockets[socket]? = some relay →
    relay.destroyed = false → ∃ entry, state.relays.lookup relay.ws = some entry ∧ entry.conns = relay.conns ∧
      (state.conns relay.conns).lookup relay.connId = some socket
  kept : ∀ map connId socket, (state.conns map).lookup connId = some socket →
    ∃ relay, state.sockets[socket]? = some relay ∧ relay.conns = map ∧ relay.connId = connId
  homes : ∀ (socket : Nat) (relay : RelaySocket Ws ConnId), state.sockets[socket]? = some relay →
    state.home relay.conns = some relay.ws
  entries : ∀ ws entry, state.relays.lookup ws = some entry → state.home entry.conns = some ws

/-- What keeps the accounting and touches only some relays. -/
structure Moves (touched : Ws → ConnId → Prop) (state later : Tunnel Ws ConnId AgentId) :
    Prop where
  accounted : later.Accounted
  same : ∀ (socket : Nat) (relay : RelaySocket Ws ConnId), state.sockets[socket]? = some relay →
    ¬ touched relay.ws relay.connId → later.sockets[socket]? = some relay
  stored : ∀ (socket : Nat) (relay : RelaySocket Ws ConnId) ws connId,
    state.sockets[socket]? = some relay → ¬ touched relay.ws relay.connId → state.Stored ws connId socket →
      later.Stored ws connId socket

variable {state later last : Tunnel Ws ConnId AgentId} {touched : Ws → ConnId → Prop}
  {ws : Ws} {connId : ConnId} {socket map : Nat} {relay : RelaySocket Ws ConnId}

theorem Moves.refl (accounted : state.Accounted) : Moves touched state state :=
  ⟨accounted, fun _ _ found _ => found, fun _ _ _ _ _ _ stored => stored⟩

theorem Moves.trans (first : Moves touched state later) (second : Moves touched later last) :
    Moves touched state last where
  accounted := second.accounted
  same socket relay found apart := second.same socket relay (first.same socket relay found apart) apart
  stored socket relay ws connId found apart stored :=
    second.stored socket relay ws connId (first.same socket relay found apart) apart
      (first.stored socket relay ws connId found apart stored)

theorem Moves.mono {wider : Ws → ConnId → Prop} (moves : Moves touched state later)
    (wide : ∀ ws connId, touched ws connId → wider ws connId) : Moves wider state later where
  accounted := moves.accounted
  same socket relay found apart := moves.same socket relay found fun own => apart (wide _ _ own)
  stored socket relay ws connId found apart :=
    moves.stored socket relay ws connId found fun own => apart (wide _ _ own)

/-- A stored socket is one of that WebSocket and id. -/
theorem Accounted.of_stored (accounted : state.Accounted) (stored : state.Stored ws connId socket) :
    ∃ relay, state.sockets[socket]? = some relay ∧ relay.ws = ws ∧ relay.connId = connId := by
  obtain ⟨entry, isEntry, inMap⟩ := stored
  obtain ⟨relay, found, isMap, isId⟩ := accounted.kept _ _ _ inMap
  have home := accounted.homes socket relay found
  rw [isMap, accounted.entries ws entry isEntry] at home
  exact ⟨relay, found, (Option.some.inj home).symm, isId⟩

/-- A live socket is stored in one place. -/
theorem Accounted.stored_iff (accounted : state.Accounted) (found : state.sockets[socket]? = some relay)
    (live : relay.destroyed = false) :
    state.Stored ws connId socket ↔ ws = relay.ws ∧ connId = relay.connId := by
  constructor
  · intro stored
    obtain ⟨other, foundOther, isWs, isId⟩ := accounted.of_stored stored
    rw [found] at foundOther
    cases foundOther
    exact ⟨isWs.symm, isId.symm⟩
  · rintro ⟨rfl, rfl⟩
    obtain ⟨entry, isEntry, isMap, inMap⟩ := accounted.live socket relay found live
    exact ⟨entry, isEntry, isMap ▸ inMap⟩

/-! ### Destroying -/

theorem sockets_destroy (other : Nat) : (state.destroy socket).sockets[other]? =
    (state.sockets[other]?).map fun relay =>
      if other = socket then { relay with destroyed := true } else relay := by
  unfold destroy
  rw [List.getElem?_modify]
  cases state.sockets[other]? <;> simp [eq_comm]

theorem conns_destroy : (state.destroy socket).conns map = state.conns map := rfl

/-- A socket behind the destruction of one, and the socket that was there. -/
theorem of_sockets_destroy {other : Nat} (found : (state.destroy socket).sockets[other]? = some relay) :
    ∃ old, state.sockets[other]? = some old ∧ relay.ws = old.ws ∧ relay.conns = old.conns ∧
      relay.connId = old.connId ∧ (relay.destroyed = false → old = relay) := by
  rw [sockets_destroy, Option.map_eq_some_iff] at found
  obtain ⟨old, isOld, rfl⟩ := found
  refine ⟨old, isOld, ?_⟩
  split
  · exact ⟨rfl, rfl, rfl, fun live => nomatch live⟩
  · exact ⟨rfl, rfl, rfl, fun _ => rfl⟩

theorem moves_destroy (accounted : state.Accounted)
    (own : ∀ relay, state.sockets[socket]? = some relay → touched relay.ws relay.connId) :
    Moves touched state (state.destroy socket) where
  accounted := by
    refine ⟨?_, ?_, ?_, accounted.entries⟩
    · intro other relay found live
      obtain ⟨old, isOld, -, -, -, same⟩ := of_sockets_destroy found
      have equal := same live
      subst equal
      exact accounted.live other old isOld live
    · intro map connId other inMap
      obtain ⟨relay, found, isMap, isId⟩ := accounted.kept map connId other inMap
      refine ⟨_, (sockets_destroy other).trans (congrArg _ found), ?_⟩
      split <;> exact ⟨isMap, isId⟩
    · intro other relay found
      obtain ⟨old, isOld, isWs, isMap, -⟩ := of_sockets_destroy found
      rw [isWs, isMap]
      exact accounted.homes other old isOld
  same other relay found apart := by
    rw [sockets_destroy, found, Option.map_some, if_neg]
    rintro rfl
    exact apart (own relay found)
  stored _ _ _ _ _ _ stored := stored

/-! ### Maps -/

theorem conns_change (update : (AList fun _ : ConnId => Nat) → AList fun _ : ConnId => Nat)
    (nothing : update ∅ = ∅ ∨ map < state.maps.length) (other : Nat) :
    (state.change map update).conns other =
      if other = map then update (state.conns map) else state.conns other := by
  unfold change conns
  dsimp only
  rw [List.getElem?_modify]
  split
  · rename_i same
    subst same
    cases found : state.maps[map]? with
    | some entry => simp
    | none =>
        have outside := List.getElem?_eq_none_iff.mp found
        rcases nothing with empty | inside
        · simp [empty]
        · omega
  · rename_i different
    cases state.maps[other]? <;> simp [Ne.symm different]

theorem home_change (update : (AList fun _ : ConnId => Nat) → AList fun _ : ConnId => Nat)
    (other : Nat) : (state.change map update).home other = state.home other := by
  unfold change home
  dsimp only
  rw [List.getElem?_modify]
  cases state.maps[other]? with
  | none => rfl
  | some entry => cases decide (map = other) <;> simp <;> split <;> rfl

theorem lookup_erase_conns (map other : Nat) (connId id : ConnId) :
    ((state.change map (AList.erase connId)).conns other).lookup id =
      if other = map ∧ id = connId then none else (state.conns other).lookup id := by
  rw [conns_change _ (Or.inl rfl)]
  by_cases same : other = map
  · subst same
    by_cases sameId : id = connId
    · subst sameId
      simp
    · simp [sameId, AList.lookup_erase_ne sameId]
  · simp [same]

/-- A socket that is destroyed may leave its map. -/
theorem moves_delete (accounted : state.Accounted)
    (own : ∀ relay, state.sockets[socket]? = some relay →
      touched relay.ws relay.connId ∧ relay.destroyed = true) :
    Moves touched state (state.delete map connId socket) := by
  unfold delete
  split
  · rename_i isStored
    have lookups := @lookup_erase_conns _ _ _ _ _ _ state map
    refine ⟨⟨?_, ?_, ?_, ?_⟩, fun _ _ found _ => found, ?_⟩
    · intro other relay found live
      obtain ⟨entry, isEntry, isMap, inMap⟩ := accounted.live other relay found live
      refine ⟨entry, isEntry, isMap, ?_⟩
      rw [lookups, if_neg, inMap]
      rintro ⟨sameMap, sameId⟩
      rw [sameMap, sameId, isStored] at inMap
      cases inMap
      exact Bool.false_ne_true (live.symm.trans (own relay found).2)
    · intro other id found inMap
      rw [lookups] at inMap
      split at inMap
      · cases inMap
      · exact accounted.kept other id found inMap
    · intro other relay found
      rw [home_change]
      exact accounted.homes other relay found
    · intro ws entry isEntry
      rw [home_change]
      exact accounted.entries ws entry isEntry
    · intro other relay ws id found apart stored
      obtain ⟨entry, isEntry, inMap⟩ := stored
      refine ⟨entry, isEntry, ?_⟩
      rw [lookups, if_neg, inMap]
      rintro ⟨sameMap, rfl⟩
      rw [sameMap, isStored] at inMap
      cases inMap
      exact apart (own relay found).1
  · exact Moves.refl accounted

/-! ### Entries -/

/-- An entry may go when what its map holds is destroyed. -/
theorem moves_forget (accounted : state.Accounted)
    (own : ∀ entry connId socket relay, state.relays.lookup ws = some entry →
      (state.conns entry.conns).lookup connId = some socket →
        state.sockets[socket]? = some relay → touched relay.ws relay.connId ∧ relay.destroyed = true) :
    Moves touched state (state.forget ws) where
  accounted := by
    refine ⟨?_, accounted.kept, accounted.homes, ?_⟩
    · intro socket relay found live
      obtain ⟨entry, isEntry, isMap, inMap⟩ := accounted.live socket relay found live
      refine ⟨entry, ?_, isMap, inMap⟩
      apply (AList.lookup_erase_ne _).trans isEntry
      rintro rfl
      exact Bool.false_ne_true
        (live.symm.trans (own entry relay.connId socket relay isEntry (isMap ▸ inMap) found).2)
    · intro other entry isEntry
      by_cases same : other = ws
      · subst same
        cases (AList.lookup_erase _ _).symm.trans isEntry
      · exact accounted.entries other entry ((AList.lookup_erase_ne same).symm.trans isEntry)
  same _ _ found _ := found
  stored socket relay other connId found apart stored := by
    obtain ⟨entry, isEntry, inMap⟩ := stored
    refine ⟨entry, (AList.lookup_erase_ne ?_).trans isEntry, inMap⟩
    rintro rfl
    exact apart (own entry connId socket relay isEntry inMap found).1

theorem moves_forget_empty (accounted : state.Accounted)
    (empty : ∀ entry, state.relays.lookup ws = some entry →
      (state.conns entry.conns).keys.length = 0) : Moves touched state (state.forget ws) := by
  apply moves_forget accounted
  intro entry connId socket relay isEntry inMap
  have none : connId ∉ state.conns entry.conns := by
    intro member
    have listed := AList.mem_keys.mp member
    rw [List.eq_nil_of_length_eq_zero (empty entry isEntry)] at listed
    cases listed
  rw [AList.lookup_eq_none.mpr none] at inMap
  cases inMap

theorem home_lt (isHome : state.home map = some ws) : map < state.maps.length := by
  obtain ⟨entry, found, -⟩ := Option.map_eq_some_iff.mp isHome
  exact (List.getElem?_eq_some_iff.mp found).1

theorem relayFor_spec {agentId : AgentId} {next : Tunnel Ws ConnId AgentId} (accounted : state.Accounted)
    (made : relayFor agentId ws state = (map, next)) :
    Moves touched state next ∧ next.sockets = state.sockets ∧
      (∀ own connId socket, next.Stored own connId socket → state.Stored own connId socket) ∧
        next.conns map = ((state.relays.lookup ws).elim ∅ fun entry => state.conns entry.conns) ∧
          ∃ entry, next.relays.lookup ws = some entry ∧ entry.conns = map := by
  unfold relayFor at made
  split at made
  · rename_i entry isEntry
    cases made
    rw [isEntry]
    exact ⟨Moves.refl accounted, rfl, fun _ _ _ stored => stored, rfl, entry, rfl, rfl⟩
  · rename_i none
    cases made
    have same (map : Nat) : conns { state with
        maps := state.maps ++ [⟨ws, ∅⟩]
        relays := state.relays.insert ws ⟨agentId, state.maps.length⟩ } map = state.conns map := by
      unfold conns
      dsimp only
      by_cases inside : map < state.maps.length
      · rw [List.getElem?_append_left inside]
      · rw [List.getElem?_append_right (by omega),
          List.getElem?_eq_none_iff.mpr (Nat.le_of_not_lt inside)]
        cases map - state.maps.length <;> rfl
    have sameHome {map : Nat} {own : Ws} (isHome : state.home map = some own) : home { state with
        maps := state.maps ++ [⟨ws, ∅⟩]
        relays := state.relays.insert ws ⟨agentId, state.maps.length⟩ } map = some own := by
      refine Eq.trans ?_ isHome
      unfold home
      dsimp only
      rw [List.getElem?_append_left (home_lt isHome)]
    have other {ws' : Ws} {entry : RelayEntry AgentId} (isEntry : state.relays.lookup ws' = some entry) :
        (state.relays.insert ws ⟨agentId, state.maps.length⟩).lookup ws' = some entry := by
      apply (AList.lookup_insert_ne _).trans isEntry
      rintro rfl
      rw [none] at isEntry
      cases isEntry
    have fresh : state.conns state.maps.length = ∅ := by
      unfold conns
      rw [List.getElem?_eq_none_iff.mpr (Nat.le_refl _)]
      rfl
    refine ⟨⟨⟨?_, ?_, ?_, ?_⟩, fun _ _ found _ => found, ?_⟩, rfl, ?_, ?_, _, AList.lookup_insert _, rfl⟩
    · intro socket relay found live
      obtain ⟨entry, isEntry, isMap, inMap⟩ := accounted.live socket relay found live
      exact ⟨entry, other isEntry, isMap, by rw [same, inMap]⟩
    · intro map connId socket inMap
      rw [same] at inMap
      exact accounted.kept map connId socket inMap
    · intro socket relay found
      exact sameHome (accounted.homes socket relay found)
    · intro ws' entry isEntry
      by_cases sameWs : ws' = ws
      · subst sameWs
        rw [AList.lookup_insert] at isEntry
        cases isEntry
        unfold home
        dsimp only
        rw [List.getElem?_append_right (Nat.le_refl _), Nat.sub_self]
        rfl
      · rw [AList.lookup_insert_ne sameWs] at isEntry
        exact sameHome (accounted.entries ws' entry isEntry)
    · intro socket relay ws' connId found apart stored
      obtain ⟨entry, isEntry, inMap⟩ := stored
      exact ⟨entry, other isEntry, by rw [same, inMap]⟩
    · intro own connId socket stored
      obtain ⟨entry, isEntry, inMap⟩ := stored
      rw [same] at inMap
      by_cases sameWs : own = ws
      · subst sameWs
        rw [AList.lookup_insert] at isEntry
        cases isEntry
        rw [fresh] at inMap
        cases inMap
      · exact ⟨entry, (AList.lookup_insert_ne sameWs).symm.trans isEntry, inMap⟩
    · rw [same, fresh, none]
      rfl

theorem lookup_connect (isHome : state.home map = some ws) (other : Nat) (id : ConnId) :
    ((state.connect ws map connId).conns other).lookup id =
      if other = map ∧ id = connId then some state.sockets.length
      else (state.conns other).lookup id := by
  refine (congrArg (AList.lookup id) (conns_change _ (Or.inr (home_lt isHome)) other)).trans ?_
  by_cases same : other = map
  · subst same
    by_cases sameId : id = connId
    · subst sameId
      simp
    · simp [sameId, AList.lookup_insert_ne sameId]
  · simp [same]

theorem moves_connect (accounted : state.Accounted) {entry : RelayEntry AgentId}
    (isEntry : state.relays.lookup ws = some entry) (isMap : entry.conns = map)
    (free : (state.conns map).lookup connId = none) :
    Moves touched state (state.connect ws map connId) := by
  have isHome : state.home map = some ws := isMap ▸ accounted.entries ws entry isEntry
  have lookups := @lookup_connect _ _ _ _ _ _ state ws connId map isHome
  have homes (other : Nat) : (state.connect ws map connId).home other = state.home other :=
    home_change _ other
  have before {socket : Nat} {relay : RelaySocket Ws ConnId}
      (found : state.sockets[socket]? = some relay) :
      (state.connect ws map connId).sockets[socket]? = some relay := by
    refine Eq.trans ?_ found
    exact List.getElem?_append_left (List.getElem?_eq_some_iff.mp found).1
  have behind {socket : Nat} {relay : RelaySocket Ws ConnId}
      (found : (state.connect ws map connId).sockets[socket]? = some relay) :
      state.sockets[socket]? = some relay ∨
        socket = state.sockets.length ∧ relay = ⟨ws, map, connId, false⟩ := by
    change (state.sockets ++ [⟨ws, map, connId, false⟩])[socket]? = some relay at found
    rw [List.getElem?_append] at found
    split at found
    · exact Or.inl found
    · rename_i outside
      rw [List.getElem?_singleton] at found
      split at found
      · cases found
        exact Or.inr ⟨by omega, rfl⟩
      · cases found
  refine ⟨⟨?_, ?_, ?_, ?_⟩, fun _ _ found _ => before found, ?_⟩
  · intro socket relay found live
    rcases behind found with old | ⟨rfl, rfl⟩
    · obtain ⟨own, isOwn, ownMap, inMap⟩ := accounted.live socket relay old live
      refine ⟨own, isOwn, ownMap, ?_⟩
      rw [lookups, if_neg, inMap]
      rintro ⟨sameMap, sameId⟩
      rw [sameMap, sameId, free] at inMap
      cases inMap
    · exact ⟨entry, isEntry, isMap, by rw [lookups, if_pos ⟨rfl, rfl⟩]⟩
  · intro other id socket inMap
    rw [lookups] at inMap
    split at inMap
    · rename_i here
      cases inMap
      refine ⟨⟨ws, map, connId, false⟩, ?_, here.1.symm, here.2.symm⟩
      exact List.getElem?_concat_length
    · obtain ⟨relay, found, own⟩ := accounted.kept other id socket inMap
      exact ⟨relay, before found, own⟩
  · intro socket relay found
    rw [homes]
    rcases behind found with old | ⟨rfl, rfl⟩
    · exact accounted.homes socket relay old
    · exact isHome
  · intro other own isOwn
    rw [homes]
    exact accounted.entries other own isOwn
  · intro socket relay other id found apart stored
    obtain ⟨own, isOwn, inMap⟩ := stored
    refine ⟨own, isOwn, ?_⟩
    rw [lookups, if_neg, inMap]
    rintro ⟨sameMap, rfl⟩
    rw [sameMap, free] at inMap
    cases inMap

/-! ### Messages, socket events and clean-ups -/

theorem moves_destroy_delete (accounted : state.Accounted)
    (own : ∀ relay, state.sockets[socket]? = some relay → touched relay.ws relay.connId) :
    Moves touched state ((state.destroy socket).delete map connId socket) := by
  have destroyed := moves_destroy accounted own
  apply destroyed.trans
  apply moves_delete destroyed.accounted
  intro relay found
  rw [sockets_destroy, Option.map_eq_some_iff] at found
  obtain ⟨old, isOld, rfl⟩ := found
  rw [if_pos rfl]
  exact ⟨own old isOld, rfl⟩

/-- The socket of a map under an id is one of the map's WebSocket. -/
theorem Accounted.of_lookup (accounted : state.Accounted) (isHome : state.home map = some ws)
    (inMap : (state.conns map).lookup connId = some socket)
    (found : state.sockets[socket]? = some relay) : relay.ws = ws ∧ relay.connId = connId := by
  obtain ⟨other, foundOther, ownMap, ownId⟩ := accounted.kept map connId socket inMap
  rw [found] at foundOther
  cases foundOther
  have own := accounted.homes socket relay found
  rw [ownMap, isHome] at own
  exact ⟨(Option.some.inj own).symm, ownId⟩

theorem moves_closeConn (accounted : state.Accounted) (isHome : state.home map = some ws) :
    Moves (fun own id => own = ws ∧ id = connId) state (state.closeConn map connId) := by
  unfold closeConn
  split
  · rename_i socket inMap
    exact moves_destroy_delete accounted fun relay found => accounted.of_lookup isHome inMap found
  · exact Moves.refl accounted

theorem relays_closeConn : (state.closeConn map connId).relays = state.relays := by
  unfold closeConn delete change destroy
  split
  · split <;> rfl
  · rfl

/-- A message touches the relay of its WebSocket and its id. -/
theorem moves_handleTunnel {agentId : AgentId} {payload : TunnelPayload ConnId}
    (accounted : state.Accounted) :
    Moves (fun own id => own = ws ∧ payload.conn_id = some id) state
      (state.handleTunnel agentId ws payload) := by
  unfold handleTunnel
  split
  · exact Moves.refl accounted
  · rename_i connId isId
    rw [isId]
    rcases made : relayFor agentId ws state with ⟨map, next⟩
    have spec : Moves (fun own id => own = ws ∧ some connId = some id) state next ∧ _ :=
      relayFor_spec accounted made
    obtain ⟨first, -, -, -, entry, isEntry, isMap⟩ := spec
    have isHome : next.home map = some ws := isMap ▸ first.accounted.entries ws entry isEntry
    refine first.trans ?_
    dsimp only
    split
    · have closes : Moves (fun own id => own = ws ∧ some connId = some id) next
          (next.closeConn map connId) :=
        (moves_closeConn first.accounted isHome).mono fun _ _ same =>
          ⟨same.1, congrArg some same.2.symm⟩
      split
      · rename_i empty
        apply closes.trans
        apply moves_forget_empty closes.accounted
        intro own isOwn
        rw [relays_closeConn, isEntry] at isOwn
        cases isOwn
        rw [isMap, empty]
      · exact closes
    · split
      · exact Moves.refl first.accounted
      · split
        · rename_i opens
          exact moves_connect first.accounted isEntry isMap opens.1
        · exact Moves.refl first.accounted

theorem moves_dropConn (accounted : state.Accounted)
    (own : ∀ relay, state.sockets[socket]? = some relay → touched relay.ws relay.connId) :
    Moves touched state (state.dropConn socket) := by
  unfold dropConn
  split
  · exact Moves.refl accounted
  · rename_i relay found
    have order : (state.delete relay.conns relay.connId socket).destroy socket =
        (state.destroy socket).delete relay.conns relay.connId socket := by
      unfold delete
      rw [conns_destroy]
      split <;> rfl
    rw [order]
    exact moves_destroy_delete accounted own

/-- The handler of a close event leaves another relay under its id. -/
theorem moves_closed (accounted : state.Accounted)
    (own : ∀ relay, state.sockets[socket]? = some relay → touched relay.ws relay.connId) :
    Moves touched state (state.closed socket) := by
  unfold closed
  split
  · exact Moves.refl accounted
  · rename_i relay found
    have gone : Moves touched state ((state.destroy socket).delete relay.conns relay.connId socket) :=
      moves_destroy_delete accounted own
    dsimp only
    split
    · rename_i entry isEntry
      split
      · rename_i empty
        apply gone.trans
        apply moves_forget_empty gone.accounted
        intro other isOther
        rw [isEntry] at isOther
        cases isOther
        rw [empty.1, empty.2]
      · exact gone
    · exact gone

theorem sockets_foldl_destroy (gone : List Nat) (other : Nat) :
    (gone.foldl destroy state).sockets[other]? = (state.sockets[other]?).map fun relay =>
      if other ∈ gone then { relay with destroyed := true } else relay := by
  induction gone generalizing state with
  | nil => simp
  | cons socket gone ih =>
      rw [List.foldl_cons, ih, sockets_destroy, Option.map_map]
      congr 1
      funext relay
      by_cases here : other = socket
      · simp [here]
      · simp [here]

theorem maps_foldl_destroy (gone : List Nat) :
    (gone.foldl destroy state).maps = state.maps ∧
      (gone.foldl destroy state).relays = state.relays := by
  induction gone generalizing state with
  | nil => exact ⟨rfl, rfl⟩
  | cons socket gone ih => exact ih

theorem moves_foldl_destroy (gone : List Nat) (accounted : state.Accounted)
    (own : ∀ socket ∈ gone, ∀ relay, state.sockets[socket]? = some relay →
      touched relay.ws relay.connId) : Moves touched state (gone.foldl destroy state) := by
  induction gone generalizing state with
  | nil => exact Moves.refl accounted
  | cons socket gone ih =>
      have first := moves_destroy accounted (own socket List.mem_cons_self)
      apply first.trans
      apply ih first.accounted
      intro other member relay found
      obtain ⟨old, isOld, isWs, -, isId, -⟩ := of_sockets_destroy found
      rw [isWs, isId]
      exact own other (List.mem_cons_of_mem _ member) old isOld

theorem moves_dropEntry (accounted : state.Accounted) :
    Moves (fun own _ => own = ws) state (state.dropEntry ws) := by
  unfold dropEntry
  split
  · exact Moves.refl accounted
  · rename_i entry isEntry
    have isHome := accounted.entries ws entry isEntry
    have destroyed : Moves (fun own _ => own = ws) state
        (((state.conns entry.conns).entries.map Sigma.snd).foldl destroy state) := by
      apply moves_foldl_destroy _ accounted
      intro socket member relay found
      obtain ⟨⟨connId, _⟩, listed, rfl⟩ := List.mem_map.mp member
      exact (accounted.of_lookup isHome (AList.mem_lookup_iff.mpr listed) found).1
    apply destroyed.trans
    apply moves_forget destroyed.accounted
    intro own connId socket relay isOwn inMap found
    rw [(maps_foldl_destroy _).2, isEntry] at isOwn
    cases isOwn
    have inMap : (state.conns entry.conns).lookup connId = some socket := by
      rw [conns, (maps_foldl_destroy _).1] at inMap
      exact inMap
    have listed : socket ∈ (state.conns entry.conns).entries.map Sigma.snd :=
      List.mem_map.mpr ⟨⟨connId, socket⟩, AList.mem_lookup_iff.mp inMap, rfl⟩
    rw [sockets_foldl_destroy, Option.map_eq_some_iff] at found
    obtain ⟨old, isOld, rfl⟩ := found
    rw [if_pos listed]
    exact ⟨(accounted.of_lookup isHome inMap isOld).1, rfl⟩

theorem moves_deregister {agentId : AgentId} (accounted : state.Accounted) :
    Moves (fun own _ => ∃ entry, state.relays.lookup own = some entry ∧ entry.agentId = agentId) state
      (state.cleanup agentId none) := by
  refine @List.foldlRecOn _ _ (Moves (fun own _ => ∃ entry, state.relays.lookup own = some entry ∧
    entry.agentId = agentId) state) (state.relays.entries.filter fun entry =>
      entry.2.agentId = agentId) (fun state entry => state.dropEntry entry.1) state
    (Moves.refl accounted) ?_
  intro next moved entry member
  obtain ⟨listed, own⟩ := List.mem_filter.mp member
  apply moved.trans
  apply (moves_dropEntry moved.accounted).mono
  rintro ws _ rfl
  exact ⟨entry.2, AList.mem_lookup_iff.mpr listed, of_decide_eq_true own⟩

end Tunnel

/-! ## Every run -/

/-- The relays that an event is about, by their WebSocket and id. -/
def TunnelEvent.Touches (state : Tunnel Ws ConnId AgentId) :
    TunnelEvent Ws ConnId AgentId → Ws → ConnId → Prop
  | message ws payload, own, connId => own = ws ∧ payload.conn_id = some connId
  | data socket, own, connId | timeout socket, own, connId | error socket, own, connId
  | close socket, own, connId =>
      ∃ relay, state.sockets[socket]? = some relay ∧ own = relay.ws ∧ connId = relay.connId
  | cleanup ws, own, _ => own = ws
  | deregister agentId, own, _ =>
      ∃ entry, state.relays.lookup own = some entry ∧ entry.agentId = agentId

variable {agentOf : Ws → AgentId} {state : Tunnel Ws ConnId AgentId}

theorem moves_apply (event : TunnelEvent Ws ConnId AgentId) (accounted : state.Accounted) :
    Tunnel.Moves (event.Touches state) state (event.apply agentOf state) := by
  have own {socket : Nat} (relay : RelaySocket Ws ConnId)
      (found : state.sockets[socket]? = some relay) : ∃ own, state.sockets[socket]? = some own ∧
        relay.ws = own.ws ∧ relay.connId = own.connId := ⟨relay, found, rfl, rfl⟩
  cases event with
  | message ws payload => exact Tunnel.moves_handleTunnel accounted
  | data socket => exact Tunnel.Moves.refl accounted
  | timeout socket => exact Tunnel.moves_dropConn accounted own
  | error socket => exact Tunnel.moves_destroy accounted own
  | close socket => exact Tunnel.moves_closed accounted own
  | cleanup ws => exact Tunnel.moves_dropEntry accounted
  | deregister agentId => exact Tunnel.moves_deregister accounted

def Tunnel.start : Tunnel Ws ConnId AgentId := ⟨[], [], ∅⟩

theorem Tunnel.accounted_start : (Tunnel.start : Tunnel Ws ConnId AgentId).Accounted where
  live _ _ found := nomatch found
  kept _ _ _ found := nomatch found
  homes _ _ found := nomatch found
  entries _ _ found := nomatch found

/-- The relay is destroyed, or leaves the entry it was stored in. -/
def Loses (step : Runs.Step (TunnelEvent Ws ConnId AgentId) (Tunnel Ws ConnId AgentId))
    (socket : Nat) (relay : RelaySocket Ws ConnId) : Prop :=
  (relay.destroyed = false ∧ ∀ later, step.after.sockets[socket]? = some later →
      later.destroyed = true) ∨
    ∃ ws connId, step.before.Stored ws connId socket ∧ ¬ step.after.Stored ws connId socket

theorem accounted_steps (agentOf : Ws → AgentId) (events : List (TunnelEvent Ws ConnId AgentId)) :
    ∀ step ∈ Runs.steps (TunnelEvent.apply agentOf) events Tunnel.start,
      step.before.Accounted ∧ step.after.Accounted :=
  Runs.forall_steps_of_keeps Tunnel.Accounted Tunnel.accounted_start
    fun event _ accounted => (moves_apply event accounted).accounted

/-- Every relay that is not destroyed is stored in one place, that of the message that opened it, and
no event touches a relay of another WebSocket or id. -/
theorem accounted_run (agentOf : Ws → AgentId) (events : List (TunnelEvent Ws ConnId AgentId)) :
    ∀ step ∈ Runs.steps (TunnelEvent.apply agentOf) events Tunnel.start,
      (∀ socket relay, step.after.sockets[socket]? = some relay → relay.destroyed = false →
        ∀ ws connId, step.after.Stored ws connId socket ↔ ws = relay.ws ∧ connId = relay.connId) ∧
      ∀ socket relay, step.before.sockets[socket]? = some relay → Loses step socket relay →
        step.operation.Touches step.before relay.ws relay.connId := by
  intro step member
  obtain ⟨before, after⟩ := accounted_steps agentOf events step member
  have moves := @moves_apply _ _ _ _ _ _ agentOf _ step.operation before
  rw [← Runs.after_of_step member] at moves
  constructor
  · intro socket relay found live ws connId
    exact after.stored_iff found live
  · intro socket relay found loses
    by_contra apart
    rcases loses with ⟨live, gone⟩ | ⟨ws, connId, stored, gone⟩
    · exact Bool.false_ne_true (live.symm.trans (gone relay (moves.same socket relay found apart)))
    · exact gone (moves.stored socket relay ws connId found apart stored)

/-- A relay of each of two connections, one of which goes away. -/
theorem accounted_two_connections :
    List.Forall (fun step : Runs.Step (TunnelEvent Nat Nat Nat) (Tunnel Nat Nat Nat) =>
      (∀ socket relay, step.after.sockets[socket]? = some relay → relay.destroyed = false →
        ∀ ws connId, step.after.Stored ws connId socket ↔ ws = relay.ws ∧ connId = relay.connId) ∧
      ∀ socket relay, step.before.sockets[socket]? = some relay → Loses step socket relay →
        step.operation.Touches step.before relay.ws relay.connId)
      (Runs.steps (TunnelEvent.apply fun _ => 0)
        [.message 1 ⟨some 7, false, [48]⟩, .message 2 ⟨some 7, false, [48]⟩, .cleanup 1] Tunnel.start) :=
  List.forall_iff_forall_mem.mpr (accounted_run (fun _ => 0) _)

end ThetaDirectory.Agents
