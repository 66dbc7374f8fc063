import Mathlib.Data.List.ReduceOption
import ThetaDirectory.Live.Bus

/-!
# What a socket gets it may read

A message that has been sent was let through by its gate for groups that its reader had at a time
after the message, or less than the lifetime of a lookup before it.
-/

namespace ThetaDirectory.Live

open Catalog Library

variable {directory : String → List String} {past : List Event} {bus : Bus} {ctx other : Context}
  {message : Message} {delivery : Delivery} {index now since : Nat}

/-! ## Gates -/

/-- The same user with no fewer groups. -/
structure Context.LE (ctx other : Context) : Prop where
  user : ctx.user = other.user
  groups : ctx.memberOfCns ⊆ other.memberOfCns
  super : ctx.isSuperAdmin = true → other.isSuperAdmin = true

def Gate.Mono (gate : Gate) : Prop :=
  ∀ ctx other record pk, ctx.LE other → gate ctx record pk = true → gate other record pk = true

theorem any_contains_mono {wanted cns others : List String} (more : cns ⊆ others)
    (found : wanted.any cns.contains = true) : wanted.any others.contains = true := by
  simp only [List.any_eq_true, List.contains_iff_mem] at found ⊢
  exact found.imp fun cn both => ⟨both.1, more both.2⟩

theorem isSuperAdmin_mono {cns others : List String} (more : cns ⊆ others)
    (admin : isSuperAdmin cns = true) : isSuperAdmin others = true := by
  simp only [isSuperAdmin, Bool.or_eq_true, List.any_eq_true, List.contains_iff_mem] at admin ⊢
  exact admin.imp (fun god => more god) fun found => found.imp fun cn both => ⟨more both.1, both.2⟩

theorem isDirectoryAdmin_mono (le : ctx.LE other) (admin : isDirectoryAdmin ctx = true) :
    isDirectoryAdmin other = true := by
  simp only [isDirectoryAdmin, Bool.or_eq_true] at admin ⊢
  exact admin.imp le.super (any_contains_mono le.groups)

theorem isSelf_congr (same : ctx.user = other.user) (owner : Json) :
    isSelf ctx owner = isSelf other owner := by
  simp only [isSelf, same]

theorem mono_adminGate : Gate.Mono adminGate :=
  fun _ _ _ _ le => isDirectoryAdmin_mono le

theorem mono_ownerGate (fields : List String) : Gate.Mono (ownerGate fields) := by
  intro ctx other record pk le allowed
  simp only [ownerGate, Bool.or_eq_true, isSelf_congr le.user] at allowed ⊢
  exact allowed.imp_left (isDirectoryAdmin_mono le)

theorem mono_user : Gate.Mono READERS.User := by
  intro ctx other record pk le allowed
  simp only [READERS.User, Bool.or_eq_true, isSelf_congr le.user, List.contains_iff_mem] at allowed ⊢
  exact allowed.imp_left (Or.imp (isDirectoryAdmin_mono le) fun member => le.groups member)

theorem mono_apiToken : Gate.Mono READERS.ApiToken := by
  intro ctx other record pk le allowed
  simpa only [READERS.ApiToken, isSelf_congr le.user] using allowed

theorem mono_isAgentAdmin : Gate.Mono isAgentAdmin := by
  intro ctx other record pk le allowed
  simp only [isAgentAdmin, Bool.or_eq_true] at allowed ⊢
  exact allowed.imp le.super (any_contains_mono le.groups)

/-- More groups never close a gate. -/
theorem mono_readers : ∀ reader ∈ readers, Gate.Mono reader.2 := by
  simp [readers, READERS.Resource, READERS.ResourceGroup, READERS.PluginInstance,
    READERS.ResourceEdge, READERS.Notification, READERS.MeshClient, READERS.MeshSite,
    READERS.MeshExitGrant, READERS.AccessRequest, READERS.Agent, READERS.SubtypeTemplate,
    mono_adminGate, mono_ownerGate, mono_user, mono_apiToken]
  exact fun _ _ _ _ _ allowed => allowed

theorem mono_canRead {canRead : Context → Bool} (gated : message.canRead = some canRead)
    (le : ctx.LE other) (allowed : canRead ctx = true) : canRead other = true := by
  cases message with
  | model topic data =>
      obtain ⟨event, -, rest⟩ := Option.bind_eq_some_iff.mp gated
      obtain ⟨gate, found, made⟩ := Option.bind_eq_some_iff.mp rest
      cases made
      exact mono_readers _ (mem_of_lookup found) ctx other _ _ le allowed
  | channel name data =>
      obtain ⟨gate, found, rfl⟩ := Option.map_eq_some_iff.mp gated
      have member := mem_of_lookup found
      simp only [channels, List.mem_cons, Prod.mk.injEq, List.not_mem_nil, or_false] at member
      rcases member with ⟨-, rfl⟩ | ⟨-, rfl⟩ | ⟨-, rfl⟩
      all_goals exact mono_isAgentAdmin ctx other _ _ le allowed

/-! ## Lookups -/

/-- The bus after some events. -/
abbrev Bus.ran (directory : String → List String) (events : List Event) : Bus :=
  Runs.run Bus.apply events (Bus.start directory)

/-- The reader's groups, as the directory has them. -/
def Bus.current (bus : Bus) (user : User) : Context :=
  contextForUser user (some (bus.directory user.dn))

theorem le_current (bus : Bus) (user : User) (ok : Bool) :
    (contextForUser user (if ok then some (bus.directory user.dn) else none)).LE
      (bus.current user) := by
  cases ok with
  | true => exact ⟨rfl, fun _ member => member, fun super => super⟩
  | false =>
      have none : isSuperAdmin [] = false := rfl
      exact ⟨rfl, List.nil_subset _, fun super => by cases none.symm.trans super⟩

/-- What was read at a time no earlier than the given one. -/
def ReadSince (since : Nat) (ctx : Context) (bus : Bus) : Prop :=
  since ≤ bus.clock ∧ ctx.LE (bus.current ctx.user)

/-- What was read within its lifetime, as seen from the given time, or later. -/
def ReadFor (now : Nat) (ctx : Context) (bus : Bus) : Prop :=
  now < bus.clock + GROUPS_TTL_MS ∧ ctx.LE (bus.current ctx.user)

def Message.event : Message → Event
  | .model topic data => .publish topic data
  | .channel name data => .emitChannel name data

def Phase.known : Phase → Option Context
  | .resolving => none
  | .resolved ctx | .sent ctx | .withheld ctx => some ctx

/-- The message was sent when the socket was there. -/
def Delivery.Offered (delivery : Delivery) (bus : Bus) : Prop :=
  bus.clock = delivery.now ∧ ∃ socket, bus.sockets[delivery.socket]? = some socket ∧
    socket.connected = true ∧ socket.reader = some delivery.user

/-- What a socket keeps is of its user and was read after it says. -/
structure Socket.Kept (directory : String → List String) (past : List Event) (socket : Socket) :
    Prop where
  user : ∀ entry ∈ socket.authz, socket.user = some entry.1.user
  read : ∀ entry ∈ socket.authz,
    Runs.Passed Bus.apply (Bus.start directory) past (ReadSince entry.2 entry.1)

structure Delivery.Kept (directory : String → List String) (past : List Event)
    (delivery : Delivery) : Prop where
  made : Runs.Made Bus.apply (Bus.start directory) past delivery.message.event delivery.Offered
  user : ∀ ctx ∈ delivery.phase.known, ctx.user = delivery.user
  read : ∀ ctx ∈ delivery.phase.known,
    Runs.Passed Bus.apply (Bus.start directory) past (ReadFor delivery.now ctx)
  sent : ∀ ctx, delivery.phase = .sent ctx → ∃ canRead,
    delivery.message.canRead = some canRead ∧ canRead ctx = true

/-- The gate is closed, or there is none. -/
def Message.Refuses (message : Message) (ctx : Context) : Prop :=
  ((message.canRead.map fun canRead => canRead ctx).getD false) = false

/-- The socket is there no longer. -/
def Bus.Left (bus : Bus) (index : Nat) : Prop :=
  ∃ socket, bus.sockets[index]? = some socket ∧ socket.connected = false

/-- The delivery's socket is where it was, and has left if only that is in the way. -/
structure Delivery.Placed (delivery : Delivery) (bus : Bus) : Prop where
  started : delivery.now ≤ bus.clock
  place : ∃ socket, bus.sockets[delivery.socket]? = some socket ∧ socket.user = some delivery.user
  withheld : ∀ ctx, delivery.phase = .withheld ctx →
    delivery.message.Refuses ctx ∨ bus.Left delivery.socket

structure Kept (directory : String → List String) (past : List Event) (bus : Bus) : Prop where
  sockets : ∀ socket ∈ bus.sockets, socket.Kept directory past
  deliveries : ∀ delivery ∈ bus.deliveries, delivery.Kept directory past ∧ delivery.Placed bus

theorem Socket.Kept.concat {socket : Socket} {event : Event} (kept : socket.Kept directory past) :
    socket.Kept directory (past ++ [event]) :=
  ⟨kept.user, fun entry listed => (kept.read entry listed).concat⟩

theorem Delivery.Kept.concat {event : Event} (kept : delivery.Kept directory past) :
    delivery.Kept directory (past ++ [event]) :=
  ⟨kept.made.concat, kept.user, fun ctx given => (kept.read ctx given).concat, kept.sent⟩

/-- The same socket, which does not come back. -/
structure Socket.Goes (socket next : Socket) : Prop where
  user : next.user = socket.user
  left : socket.connected = false → next.connected = false

theorem Socket.Goes.refl (socket : Socket) : socket.Goes socket := ⟨rfl, fun left => left⟩

/-- Sockets stay in their places. -/
structure Bus.Later (bus after : Bus) : Prop where
  clock : bus.clock ≤ after.clock
  sockets : ∀ (index : Nat) (socket : Socket), bus.sockets[index]? = some socket →
    ∃ next, after.sockets[index]? = some next ∧ socket.Goes next

theorem Bus.Left.later {after : Bus} (later : bus.Later after) (left : bus.Left index) :
    after.Left index := by
  obtain ⟨socket, found, gone⟩ := left
  obtain ⟨next, there, goes⟩ := later.sockets _ _ found
  exact ⟨next, there, goes.left gone⟩

theorem Delivery.Placed.later {after : Bus} (later : bus.Later after) (placed : delivery.Placed bus) :
    delivery.Placed after where
  started := placed.started.trans later.clock
  place := by
    obtain ⟨socket, found, named⟩ := placed.place
    obtain ⟨next, there, goes⟩ := later.sockets _ _ found
    exact ⟨next, there, goes.user.trans named⟩
  withheld ctx withheld := (placed.withheld ctx withheld).imp_right (·.later later)

theorem later_of_sockets {after : Bus} (clock : bus.clock ≤ after.clock)
    (same : after.sockets = bus.sockets) : bus.Later after :=
  ⟨clock, fun _ socket found => ⟨socket, (congrArg (·[_]?) same).trans found, .refl socket⟩⟩

theorem later_of_modify {after : Bus} {change : Socket → Socket} (clock : bus.clock = after.clock)
    (same : after.sockets = bus.sockets.modify index change)
    (goes : ∀ socket, Socket.Goes socket (change socket)) : bus.Later after := by
  refine ⟨clock.le, fun position socket found => ?_⟩
  rw [same, List.getElem?_modify, found]
  by_cases here : index = position
  · exact ⟨change socket, by simp [here], goes socket⟩
  · exact ⟨socket, by simp [here], .refl socket⟩

theorem later_broadcast : bus.Later (bus.broadcast message) := by
  unfold Bus.broadcast
  split
  · exact later_of_sockets le_rfl rfl
  · exact later_of_sockets le_rfl rfl

theorem later_apply (event : Event) (bus : Bus) : bus.Later (Bus.apply event bus) := by
  cases event with
  | elapse time => exact later_of_sockets (Nat.le_add_right _ _) rfl
  | setGroups dn cns => exact later_of_sockets le_rfl rfl
  | connect user =>
      exact ⟨le_rfl, fun position socket found =>
        ⟨socket, (List.getElem?_append_left (List.getElem?_eq_some_iff.mp found).1).trans found,
          .refl socket⟩⟩
  | disconnect index => exact later_of_modify rfl rfl fun _ => ⟨rfl, fun _ => rfl⟩
  | publish topic data =>
      simp only [Bus.apply, Bus.publish]
      split
      · exact ⟨later_broadcast.clock, later_broadcast.sockets⟩
      · exact later_of_sockets le_rfl rfl
  | emitChannel name data => exact later_broadcast
  | resolve index ok =>
      simp only [Bus.apply, Bus.resolve]
      split
      · split
        · exact later_of_modify rfl rfl fun _ => ⟨rfl, fun left => left⟩
        · exact later_of_sockets le_rfl rfl
      · exact later_of_sockets le_rfl rfl
  | deliver index =>
      simp only [Bus.apply, Bus.deliver]
      repeat' split
      all_goals exact later_of_sockets le_rfl rfl

/-! ## Events -/

theorem mem_broadcast (listed : delivery ∈ (bus.broadcast message).deliveries) :
    delivery ∈ bus.deliveries ∨ ∃ (index : Nat) (socket : Socket),
      bus.sockets[index]? = some socket ∧ bus.offer message index socket = some delivery := by
  unfold Bus.broadcast at listed
  split at listed
  · rcases List.mem_append.mp listed with old | offered
    · exact Or.inl old
    · obtain ⟨index, inside, offer⟩ := List.mem_mapIdx.mp (List.reduceOption_mem_iff.mp offered)
      exact Or.inr ⟨index, _, List.getElem?_eq_getElem inside, offer⟩
  · exact Or.inl listed

theorem offer_eq_some {socket : Socket} (offered : bus.offer message index socket = some delivery) :
    ∃ user, socket.reader = some user ∧ socket.connected = true ∧
      delivery = ⟨index, user, message, bus.clock, socket.contextFor bus.clock⟩ := by
  unfold Bus.offer at offered
  split at offered
  · rename_i connected
    obtain ⟨user, reader, rfl⟩ := Option.map_eq_some_iff.mp offered
    exact ⟨user, reader, connected, rfl⟩
  · cases offered

theorem user_of_reader {socket : Socket} {user : User} (reader : socket.reader = some user) :
    socket.user = some user :=
  (Option.filter_eq_some_iff.mp reader).1

theorem contextFor_cases {socket : Socket} {phase : Phase} (called : socket.contextFor now = phase) :
    phase = .resolving ∨ ∃ ctx since, socket.authz = some (ctx, since) ∧
      now < since + GROUPS_TTL_MS ∧ phase = .resolved ctx := by
  unfold Socket.contextFor at called
  split at called
  · rename_i ctx since kept
    split at called
    · rename_i fresh
      exact Or.inr ⟨ctx, since, kept, fresh, called.symm⟩
    · exact Or.inl called.symm
  · exact Or.inl called.symm

theorem kept_offer {socket : Socket} (kept : Kept directory past (Bus.ran directory past))
    (found : (Bus.ran directory past).sockets[index]? = some socket)
    (offered : (Bus.ran directory past).offer message index socket = some delivery) :
    delivery.Kept directory (past ++ [message.event]) ∧
      delivery.Placed (Bus.ran directory past) := by
  obtain ⟨user, reader, connected, rfl⟩ := offer_eq_some offered
  have named := user_of_reader reader
  have own := kept.sockets socket (List.mem_of_getElem? found)
  have cases := contextFor_cases (@rfl _ (socket.contextFor (Bus.ran directory past).clock))
  constructor
  · refine ⟨.of_now ⟨rfl, socket, found, connected, reader⟩, ?_, ?_, ?_⟩
    · intro ctx known
      rcases cases with none | ⟨cached, since, here, -, phase⟩
      · rw [none] at known
        cases known
      · rw [phase] at known
        cases known
        exact Option.some.inj ((own.user _ here).symm.trans named)
    · intro ctx known
      rcases cases with none | ⟨cached, since, here, fresh, phase⟩
      · rw [none] at known
        cases known
      · rw [phase] at known
        cases known
        apply (own.read _ here).concat.imp
        exact fun bus read => ⟨fresh.trans_le (Nat.add_le_add_right read.1 _), read.2⟩
    · intro ctx sent
      rcases contextFor_cases sent with none | ⟨cached, since, -, -, phase⟩
      · cases none
      · cases phase
  · refine ⟨le_rfl, ⟨socket, found, named⟩, fun ctx withheld => ?_⟩
    rcases contextFor_cases withheld with none | ⟨cached, since, -, -, phase⟩
    · cases none
    · cases phase

theorem Kept.carried {event : Event} {after : Bus} (kept : Kept directory past bus)
    (later : bus.Later after) (listed : delivery ∈ bus.deliveries) :
    delivery.Kept directory (past ++ [event]) ∧ delivery.Placed after :=
  (kept.deliveries delivery listed).imp (·.concat) (·.later later)

theorem Kept.concat {event : Event} (kept : Kept directory past bus) :
    Kept directory (past ++ [event]) bus :=
  ⟨fun socket listed => (kept.sockets socket listed).concat, fun _ listed =>
    kept.carried (later_of_sockets le_rfl rfl) listed⟩

theorem kept_broadcast (kept : Kept directory past (Bus.ran directory past))
    (listed : delivery ∈ ((Bus.ran directory past).broadcast message).deliveries) :
    delivery.Kept directory (past ++ [message.event]) ∧
      delivery.Placed ((Bus.ran directory past).broadcast message) := by
  rcases mem_broadcast listed with old | ⟨index, socket, found, offered⟩
  · exact kept.carried later_broadcast old
  · exact (kept_offer kept found offered).imp_right (·.later later_broadcast)

theorem sockets_broadcast : (bus.broadcast message).sockets = bus.sockets := by
  unfold Bus.broadcast
  split <;> rfl

/-- A socket behind a change of one is an old one or the changed one. -/
theorem mem_modify {change : Socket → Socket} {socket : Socket}
    (listed : socket ∈ bus.sockets.modify index change) : socket ∈ bus.sockets ∨
      ∃ old, bus.sockets[index]? = some old ∧ socket = change old := by
  obtain ⟨position, found⟩ := List.mem_iff_getElem?.mp listed
  rw [List.getElem?_modify] at found
  obtain ⟨old, there, same⟩ := Option.map_eq_some_iff.mp found
  by_cases here : index = position
  · subst here
    simp only [if_true] at same
    exact Or.inr ⟨old, there, same.symm⟩
  · simp only [here, if_false] at same
    cases same
    exact Or.inl (List.mem_of_getElem? there)

theorem kept_resolve (ok : Bool) (kept : Kept directory past (Bus.ran directory past)) :
    Kept directory (past ++ [.resolve index ok]) ((Bus.ran directory past).resolve index ok) := by
  have later := later_apply (.resolve index ok) (Bus.ran directory past)
  change (Bus.ran directory past).Later (Bus.resolve _ index ok) at later
  revert later
  unfold Bus.resolve
  split
  · rename_i delivery found
    split
    · intro later
      have listed := List.mem_of_getElem? found
      obtain ⟨own, placed⟩ := kept.deliveries delivery listed
      obtain ⟨socket, there, named⟩ := placed.place
      have le := le_current (Bus.ran directory past) delivery.user ok
      constructor
      · intro other listed
        rcases mem_modify listed with before | ⟨before, here, rfl⟩
        · exact (kept.sockets other before).concat
        · rw [there] at here
          cases here
          constructor
          · rintro entry ⟨⟩
            exact named
          · rintro entry ⟨⟩
            exact (Runs.Passed.of_now ⟨placed.started, le⟩).concat
      · intro other listed
        rcases List.mem_or_eq_of_mem_set listed with before | rfl
        · exact kept.carried later before
        · constructor
          · refine ⟨own.made.concat, ?_, ?_, ?_⟩
            · rintro ctx ⟨⟩
              rfl
            · rintro ctx ⟨⟩
              exact (Runs.Passed.of_now
                ⟨placed.started.trans_lt (Nat.lt_add_of_pos_right (by decide)), le⟩).concat
            · rintro ctx ⟨⟩
          · refine ⟨(placed.later later).started, (placed.later later).place, ?_⟩
            rintro ctx ⟨⟩
    · exact fun _ => kept.concat
  · exact fun _ => kept.concat

theorem ask_cases (placed : delivery.Placed bus) :
    (bus.ask delivery ctx = .sent ctx ∧
      ∃ canRead, delivery.message.canRead = some canRead ∧ canRead ctx = true) ∨
    (bus.ask delivery ctx = .withheld ctx ∧
      (delivery.message.Refuses ctx ∨ bus.Left delivery.socket)) := by
  unfold Bus.ask Message.Refuses
  dsimp only
  cases gated : delivery.message.canRead with
  | none => exact Or.inr ⟨rfl, Or.inl rfl⟩
  | some canRead =>
      cases allowed : canRead ctx with
      | false => exact Or.inr ⟨by simp [allowed], Or.inl (by simp [allowed])⟩
      | true =>
          obtain ⟨socket, found, -⟩ := placed.place
          cases connected : socket.connected with
          | true => exact Or.inl ⟨by simp [allowed, found, connected], canRead, rfl, allowed⟩
          | false =>
              exact Or.inr ⟨by simp [found, connected], Or.inr ⟨socket, found, connected⟩⟩

theorem kept_deliver (kept : Kept directory past (Bus.ran directory past)) :
    Kept directory (past ++ [.deliver index]) ((Bus.ran directory past).deliver index) := by
  unfold Bus.deliver
  split
  · rename_i delivery found
    split
    · rename_i ctx resolved
      refine ⟨kept.concat.sockets, fun other listed => ?_⟩
      have later {deliveries : List Delivery} :
          (Bus.ran directory past).Later { Bus.ran directory past with deliveries } :=
        later_of_sockets le_rfl rfl
      rcases List.mem_or_eq_of_mem_set listed with before | rfl
      · exact kept.carried later before
      · obtain ⟨own, placed⟩ := kept.deliveries delivery (List.mem_of_getElem? found)
        have known : ctx ∈ delivery.phase.known := by
          rw [resolved]
          rfl
        rcases @ask_cases (Bus.ran directory past) ctx delivery placed with
          ⟨asked, open'⟩ | ⟨asked, closed⟩
        · rw [asked]
          refine ⟨⟨own.made.concat, ?_, ?_, ?_⟩, placed.started, placed.place, ?_⟩
          · rintro other ⟨⟩
            exact own.user ctx known
          · rintro other ⟨⟩
            exact (own.read ctx known).concat
          · rintro other ⟨⟩
            exact open'
          · rintro other ⟨⟩
        · rw [asked]
          refine ⟨⟨own.made.concat, ?_, ?_, ?_⟩, placed.started, placed.place, ?_⟩
          · rintro other ⟨⟩
            exact own.user ctx known
          · rintro other ⟨⟩
            exact (own.read ctx known).concat
          · rintro other ⟨⟩
          · rintro other ⟨⟩
            exact closed
    · exact kept.concat
  · exact kept.concat

theorem kept_apply (event : Event) (kept : Kept directory past (Bus.ran directory past)) :
    Kept directory (past ++ [event]) (Bus.apply event (Bus.ran directory past)) := by
  have later := later_apply event (Bus.ran directory past)
  cases event with
  | elapse time => exact ⟨kept.concat.sockets, fun _ => kept.carried later⟩
  | setGroups dn cns => exact ⟨kept.concat.sockets, fun _ => kept.carried later⟩
  | connect user =>
      refine ⟨fun socket listed => ?_, fun _ => kept.carried later⟩
      rcases List.mem_append.mp listed with before | new
      · exact kept.concat.sockets socket before
      · rw [List.mem_singleton.mp new]
        exact ⟨by rintro entry ⟨⟩, by rintro entry ⟨⟩⟩
  | disconnect index =>
      refine ⟨fun socket listed => ?_, fun _ => kept.carried later⟩
      rcases mem_modify listed with before | ⟨before, there, rfl⟩
      · exact kept.concat.sockets socket before
      · obtain ⟨user, read⟩ := (kept.sockets before (List.mem_of_getElem? there)).concat
        exact ⟨user, read⟩
  | publish topic data =>
      simp only [Bus.apply, Bus.publish]
      split
      · refine ⟨fun socket listed => kept.concat.sockets socket (sockets_broadcast ▸ listed),
          fun delivery listed => ?_⟩
        obtain ⟨own, placed⟩ := kept_broadcast kept listed
        exact ⟨own, placed.started, placed.place, placed.withheld⟩
      · exact kept.concat
  | emitChannel name data =>
      exact ⟨fun socket listed => kept.concat.sockets socket (sockets_broadcast ▸ listed),
        fun delivery listed => kept_broadcast kept listed⟩
  | resolve index ok => exact kept_resolve ok kept
  | deliver index => exact kept_deliver kept

theorem kept_run (directory : String → List String) (events : List Event) :
    Kept directory events (Bus.ran directory events) := by
  apply Runs.run_of_past (Kept directory)
  · exact ⟨by rintro socket ⟨⟩, by rintro delivery ⟨⟩⟩
  · exact fun past event => kept_apply event

private def ada : User := ⟨"ada", "uid=ada"⟩

private def addsHost : Change :=
  ⟨"Resource", .create, .str "r1", .obj [("hostname", .str "web1")]⟩

/-- The reader loses her groups while the message is on its way. -/
private def losesGroups : List Event :=
  [.connect (some ada), .setGroups "uid=ada" ["app_sso_admin"],
    .publish addsHost.topic addsHost.payload, .resolve 0 true, .setGroups "uid=ada" [], .deliver 0]

private def reaches : Delivery :=
  ⟨0, ada, .model addsHost.topic addsHost.payload, 0, .sent ⟨ada, ["app_sso_admin"], false⟩⟩

/-- The same delivery at a later time. -/
structure Delivery.Same (delivery next : Delivery) : Prop where
  socket : next.socket = delivery.socket
  user : next.user = delivery.user
  message : next.message = delivery.message
  now : next.now = delivery.now

theorem Delivery.Same.refl (delivery : Delivery) : delivery.Same delivery := ⟨rfl, rfl, rfl, rfl⟩

theorem getElem?_set {changed : Delivery} {position : Nat}
    (found : bus.deliveries[index]? = some delivery) (same : ∀ old,
      bus.deliveries[position]? = some old → old.Same changed) :
    ∃ next, (bus.deliveries.set position changed)[index]? = some next ∧ delivery.Same next := by
  by_cases here : position = index
  · subst here
    exact ⟨changed, List.getElem?_set_self (List.getElem?_eq_some_iff.mp found).1, same _ found⟩
  · exact ⟨delivery, (List.getElem?_set_ne here).trans found, .refl delivery⟩

theorem getElem?_broadcast (found : bus.deliveries[index]? = some delivery) :
    (bus.broadcast message).deliveries[index]? = some delivery := by
  unfold Bus.broadcast
  split
  · exact (List.getElem?_append_left (List.getElem?_eq_some_iff.mp found).1).trans found
  · exact found

theorem same_apply (event : Event) (found : bus.deliveries[index]? = some delivery) :
    ∃ next, (Bus.apply event bus).deliveries[index]? = some next ∧ delivery.Same next := by
  cases event with
  | elapse time | setGroups dn cns | connect user | disconnect socket =>
      exact ⟨delivery, found, .refl delivery⟩
  | publish topic data =>
      simp only [Bus.apply, Bus.publish]
      split
      · exact ⟨delivery, getElem?_broadcast found, .refl delivery⟩
      · exact ⟨delivery, found, .refl delivery⟩
  | emitChannel name data => exact ⟨delivery, getElem?_broadcast found, .refl delivery⟩
  | resolve position ok =>
      simp only [Bus.apply, Bus.resolve]
      split
      · rename_i old there
        split
        · refine getElem?_set found fun before here => ?_
          rw [there] at here
          cases here
          exact ⟨rfl, rfl, rfl, rfl⟩
        · exact ⟨delivery, found, .refl delivery⟩
      · exact ⟨delivery, found, .refl delivery⟩
  | deliver position =>
      simp only [Bus.apply, Bus.deliver]
      split
      · rename_i old there
        split
        · refine getElem?_set found fun before here => ?_
          rw [there] at here
          cases here
          exact ⟨rfl, rfl, rfl, rfl⟩
        · exact ⟨delivery, found, .refl delivery⟩
      · exact ⟨delivery, found, .refl delivery⟩

theorem same_run {events : List Event} (found : bus.deliveries[index]? = some delivery) :
    ∃ next, (Runs.run Bus.apply events bus).deliveries[index]? = some next ∧ delivery.Same next := by
  induction events generalizing bus delivery with
  | nil => exact ⟨delivery, found, .refl delivery⟩
  | cons event events ih =>
      obtain ⟨between, there, same⟩ := same_apply event found
      obtain ⟨next, here, also⟩ := ih there
      exact ⟨next, here, also.socket.trans same.socket, also.user.trans same.user,
        also.message.trans same.message, also.now.trans same.now⟩

/-- The event goes out over the sockets. -/
def Message.GoesOut : Message → Prop
  | .model topic data => (∃ model ∈ LIVE_MODELS, (data.get "model").isStr model = true) ∧
      (Message.model topic data).canRead.isSome
  | .channel name data => (Message.channel name data).canRead.isSome

theorem deliveries_apply (out : message.GoesOut) : (Bus.apply message.event bus).deliveries =
    bus.deliveries ++ (bus.sockets.mapIdx (bus.offer message)).reduceOption := by
  cases message with
  | model topic data =>
      obtain ⟨named, gated⟩ := out
      have shown := List.any_eq_true.mpr named
      simp [Message.event, Bus.apply, Bus.publish, shown, Bus.broadcast, gated]
  | channel name data =>
      have gated : (Message.channel name data).canRead.isSome = true := out
      simp [Message.event, Bus.apply, Bus.broadcast, gated]

end ThetaDirectory.Live
