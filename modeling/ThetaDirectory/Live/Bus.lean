import Mathlib.Logic.Function.Basic
import ThetaDirectory.Library.Past
import ThetaDirectory.Library.Positions
import ThetaDirectory.Live.Gates

/-!
# The live bus

`liveBus`, `attach` and `emitChannel` of `utils/socket_pubsub.js`.  An event is offered to every
socket; its gate is asked once the socket's groups are known, which may be from a lookup some time
ago.  Lookups overlap, and those of one socket may be over in any order.
-/

namespace ThetaDirectory.Live

open Catalog Library

def GROUPS_TTL_MS : Nat := 30000

/-- What is sent to sockets. -/
inductive Message where
  | model (topic : String) (data : Json)
  | channel (name : String) (data : Json)
  deriving Repr

/-- The gate of a message, if there is one. -/
def Message.canRead : Message → Option (Context → Bool)
  | .model topic data => do
      let event ← parseTopic topic
      let canRead ← readers.lookup event.model
      return fun ctx => canRead ctx data ((event.pk.map Json.str).getD .null)
  | .channel name data => (channels.lookup name).map fun canRead ctx => canRead ctx data .null

structure Socket where
  user : Option User
  /-- `_authzCtx` and `_authzCtxAt` -/
  authz : Option (Context × Nat)
  connected : Bool
  deriving DecidableEq, Repr

/-- The promise of `contextFor` and what follows it. -/
inductive Phase where
  | resolving
  | resolved (ctx : Context)
  | sent (ctx : Context)
  | withheld (ctx : Context)
  deriving DecidableEq, Repr

/-- A message on its way to a socket; `contextFor` was called at `now`. -/
structure Delivery where
  socket : Nat
  user : User
  message : Message
  now : Nat
  phase : Phase
  deriving Repr

structure Bus where
  clock : Nat
  /-- `Group.list`: the groups of a `dn` -/
  directory : String → List String
  sockets : List Socket
  deliveries : List Delivery
  history : List ActivityEvent

inductive Event where
  | elapse (time : Nat)
  | setGroups (dn : String) (cns : List String)
  | connect (user : Option User)
  | disconnect (socket : Nat)
  | publish (topic : String) (data : Json)
  | emitChannel (name : String) (data : Json)
  | resolve (delivery : Nat) (ok : Bool)
  | deliver (delivery : Nat)
  deriving Repr

/-- `socket.user && socket.user.dn`. -/
def Socket.reader (socket : Socket) : Option User := socket.user.filter (·.dn != "")

/-- `contextFor` up to its first wait. -/
def Socket.contextFor (socket : Socket) (now : Nat) : Phase :=
  match socket.authz with
  | some (ctx, since) => if now < since + GROUPS_TTL_MS then .resolved ctx else .resolving
  | none => .resolving

/-- The delivery to the socket at an index. -/
def Bus.offer (bus : Bus) (message : Message) (index : Nat) (socket : Socket) : Option Delivery :=
  if socket.connected then
    socket.reader.map fun user => ⟨index, user, message, bus.clock, socket.contextFor bus.clock⟩
  else none

/-- The loop over `io.sockets.sockets`. -/
def Bus.broadcast (bus : Bus) (message : Message) : Bus :=
  if message.canRead.isSome then
    { bus with
      deliveries := bus.deliveries ++
        (bus.sockets.mapIdx (bus.offer message)).reduceOption }
  else bus

/-- `liveBus.publish`. -/
def Bus.publish (bus : Bus) (topic : String) (data : Json) : Bus :=
  if LIVE_MODELS.any fun model => (data.get "model").isStr model then
    { bus.broadcast (.model topic data) with history := bus.history ++ (record data).toList }
  else bus

/-- The groups have been listed, or have not. -/
def Bus.resolve (bus : Bus) (index : Nat) (ok : Bool) : Bus :=
  match bus.deliveries[index]? with
  | some delivery =>
      if delivery.phase = .resolving then
        let ctx := contextForUser delivery.user (if ok then some (bus.directory delivery.user.dn) else none)
        { bus with
          sockets := bus.sockets.modify delivery.socket fun socket =>
            { socket with authz := some (ctx, delivery.now) }
          deliveries := bus.deliveries.set index { delivery with phase := .resolved ctx } }
      else bus
  | none => bus

/-- The gate is asked; what is emitted to a socket that has left goes nowhere. -/
def Bus.ask (bus : Bus) (delivery : Delivery) (ctx : Context) : Phase :=
  let allowed := (delivery.message.canRead.map fun canRead => canRead ctx).getD false
  let connected := ((bus.sockets[delivery.socket]?).map Socket.connected).getD false
  if allowed && connected then .sent ctx else .withheld ctx

def Bus.deliver (bus : Bus) (index : Nat) : Bus :=
  match bus.deliveries[index]? with
  | some delivery =>
      match delivery.phase with
      | .resolved ctx =>
          { bus with
            deliveries := bus.deliveries.set index { delivery with phase := bus.ask delivery ctx } }
      | _ => bus
  | none => bus

def Bus.apply : Event → Bus → Bus
  | .elapse time, bus => { bus with clock := bus.clock + time }
  | .setGroups dn cns, bus => { bus with directory := Function.update bus.directory dn cns }
  | .connect user, bus => { bus with sockets := bus.sockets ++ [⟨user, none, true⟩] }
  | .disconnect index, bus =>
      { bus with sockets := bus.sockets.modify index fun socket => { socket with connected := false } }
  | .publish topic data, bus => bus.publish topic data
  | .emitChannel name data, bus => bus.broadcast (.channel name data)
  | .resolve index ok, bus => bus.resolve index ok
  | .deliver index, bus => bus.deliver index

/-- A bus without sockets. -/
def Bus.start (directory : String → List String) : Bus := ⟨0, directory, [], [], []⟩

end ThetaDirectory.Live
