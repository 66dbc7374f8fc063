import ThetaDirectory.Live.Bus

/-!
# The feed and the sockets

The feed replays the events through the gates that decided who received them.  The sockets show a
gate the whole payload, which names no owner, and the feed the owner that it has kept.
-/

namespace ThetaDirectory.Live

open Catalog

variable {ctx : Context} {change : Change}

/-- The models whose records have an owner. -/
def OWNED : List String := ["Notification", "ApiToken", "MeshClient", "AccessRequest"]

/-- The record that is announced. -/
def Change.record (change : Change) : Json := if change.action = .delete then .null else change.data

def Change.owner (change : Change) : String := pick change.record OWNER_FIELDS

def Change.target (change : Change) : String := targetOf change.pk

/-- The feed takes the record for one of the user's own. -/
def Change.Concerns (change : Change) (uid : String) : Prop :=
  uid ≠ "" ∧ (change.model ∈ OWNED ∧ change.owner = uid ∨
    change.model = "User" ∧ (change.owner = uid ∨ change.owner = "" ∧ change.target = uid))

/-- The row that is kept of a change. -/
def Change.row (change : Change) : ActivityEvent :=
  ⟨change.model, change.action.text, change.target, pick change.record ACTOR_FIELDS, change.owner⟩

theorem record_payload (named : change.model ≠ "") : Live.record change.payload = some change.row := by
  have acts : change.action.text ≠ "" := by cases change.action <;> decide
  simp [Live.record, Change.payload, Json.get, List.lookup_cons, Json.isTruthy, Json.text, named, acts,
    Change.row, Change.target, Change.owner, Change.record]

theorem parseTopic_topic (named : change.model ∈ LIVE_MODELS) :
    parseTopic change.topic = some ⟨change.model, change.action.text, none⟩ := by
  obtain ⟨model, action, pk, data⟩ := change
  have all : ∀ model ∈ LIVE_MODELS, parseTopic ("model:" ++ model ++ ":" ++ action.text) =
      some ⟨model, action.text, none⟩ := by
    cases action <;> decide +kernel
  exact all model named

theorem isSelf_null : isSelf ctx .null = false := by
  simp [isSelf, Json.isTruthy]

theorem isSelf_orUndefined {owner : String} :
    isSelf ctx (orUndefined owner) = true ↔ ctx.user.uid ≠ "" ∧ owner = ctx.user.uid := by
  by_cases none : owner = ""
  · subst none
    simp [orUndefined, isSelf_null]
  · simp [orUndefined, none, isSelf, Json.isTruthy, Json.text]

theorem isSelf_str {owner : String} :
    isSelf ctx (.str owner) = true ↔ ctx.user.uid ≠ "" ∧ owner = ctx.user.uid := by
  simp only [isSelf, Json.isTruthy, Json.text, Bool.and_eq_true, bne_iff_ne, beq_iff_eq]
  exact ⟨fun all => ⟨all.1.1, all.2⟩, fun both => ⟨⟨both.1, both.2 ▸ both.1⟩, both.2⟩⟩

theorem orElse_orUndefined {owner : String} (other : Json) :
    orElse (orUndefined owner) other = if owner = "" then other else .str owner := by
  by_cases none : owner = ""
  · simp [orElse, orUndefined, none, Json.isTruthy]
  · simp [orElse, orUndefined, none, Json.isTruthy]

theorem isDirectoryAdmin_of_mem (member : "app_sso_admin" ∈ ctx.memberOfCns) :
    isDirectoryAdmin ctx = true := by
  simp [isDirectoryAdmin, DIRECTORY_ADMIN_GROUPS, member]

/-! ## The two records of a change -/

/-- The payload names no owner. -/
theorem firstOf_absent {fields : List String}
    (apart : ∀ field ∈ fields, field ∉ ["model", "action", "pk", "data"]) :
    firstOf fields change.payload = .null := by
  induction fields with
  | nil => rfl
  | cons field fields ih =>
      obtain ⟨here, others⟩ := List.forall_mem_cons.mp apart
      have absent : change.payload.get field = .null := by
        simp only [List.mem_cons, List.not_mem_nil, or_false, not_or] at here
        simp [Change.payload, Json.get, List.lookup_cons, beq_eq_false_iff_ne.mpr here.1,
          beq_eq_false_iff_ne.mpr here.2.1, beq_eq_false_iff_ne.mpr here.2.2.1,
          beq_eq_false_iff_ne.mpr here.2.2.2]
      simp only [firstOf, List.foldr_cons, absent]
      exact ih others

/-- The fields that the gates look for the owner in. -/
def GATE_FIELDS : List (List String) :=
  [["uid", "username"], ["uid", "created_by", "username"], ["created_by", "uid"],
    ["uid", "username", "created_by"], ["uid", "requestedBy", "created_by"]]

/-- The feed fills in the owner wherever a gate looks for it. -/
theorem firstOf_fields {event : ActivityEvent} {fields : List String}
    (asked : fields ∈ GATE_FIELDS) : firstOf fields event.fields = orUndefined event.owner := by
  simp only [GATE_FIELDS, List.mem_cons, List.not_mem_nil, or_false] at asked
  by_cases none : event.owner = ""
  · rcases asked with rfl | rfl | rfl | rfl | rfl
    all_goals
      simp [firstOf, ActivityEvent.fields, Json.get, List.lookup_cons, orElse, orUndefined, none,
        Json.isTruthy]
  · rcases asked with rfl | rfl | rfl | rfl | rfl
    all_goals
      simp [firstOf, ActivityEvent.fields, Json.get, List.lookup_cons, orElse, orUndefined, none,
        Json.isTruthy]

theorem firstOf_payload {fields : List String} (asked : fields ∈ GATE_FIELDS) :
    firstOf fields change.payload = .null := by
  apply firstOf_absent
  revert fields
  decide

/-- What a gate says of the payload that a socket gets, and of the row in the feed. -/
structure Replays (change : Change) (gate : Gate) : Prop where
  live : ∀ ctx, gate ctx change.payload .null = true ↔
    change.model = "Group" ∨ change.model ≠ "ApiToken" ∧ isDirectoryAdmin ctx = true
  feed : ∀ ctx, gate ctx change.row.fields (.str change.row.target) = true ↔
    gate ctx change.payload .null = true ∨ change.Concerns ctx.user.uid

theorem replays_adminGate (plain : change.model ∉ ["Group", "User"] ++ OWNED) :
    Replays change adminGate := by
  simp only [OWNED, List.mem_append, List.mem_cons, List.not_mem_nil, or_false, not_or] at plain
  constructor
  · intro ctx
    simp [adminGate, plain]
  · intro ctx
    simp [adminGate, Change.Concerns, OWNED, plain]

theorem replays_ownerGate {fields : List String} (asked : fields ∈ GATE_FIELDS)
    (owned : change.model ∈ OWNED) (bypassed : change.model ≠ "ApiToken") :
    Replays change (ownerGate fields) := by
  have other : change.model ≠ "Group" ∧ change.model ≠ "User" := by
    constructor
    all_goals
      intro same
      rw [same] at owned
      revert owned
      decide
  constructor
  · intro ctx
    simp [ownerGate, firstOf_payload asked, isSelf_null, other, bypassed]
  · intro ctx
    simp [ownerGate, firstOf_payload asked, firstOf_fields asked, isSelf_null, isSelf_orUndefined,
      Change.Concerns, owned, other, Change.row]

theorem replays_user (named : change.model = "User") : Replays change READERS.User := by
  have asked : ["uid", "username"] ∈ GATE_FIELDS := List.mem_cons_self
  have other : change.model ≠ "Group" ∧ change.model ≠ "ApiToken" ∧ change.model ∉ OWNED := by
    rw [named]
    decide
  constructor
  · intro ctx
    have unnamed : isSelf ctx (orElse Json.null .null) = false := isSelf_null
    simp [READERS.User, firstOf_payload asked, unnamed, other, or_iff_left_of_imp isDirectoryAdmin_of_mem]
  · intro ctx
    have unnamed : isSelf ctx (orElse Json.null .null) = false := isSelf_null
    have own : isSelf ctx (orElse (orUndefined change.owner) (.str change.target)) = true ↔
        change.Concerns ctx.user.uid := by
      rw [orElse_orUndefined]
      by_cases none : change.owner = ""
      · simp [none, isSelf_str, Change.Concerns, named, OWNED]
        exact fun present same => absurd same present
      · simp [none, isSelf_str, Change.Concerns, named, OWNED]
    have shown : firstOf ["uid", "username"] change.row.fields = orUndefined change.owner :=
      firstOf_fields asked
    have target : change.row.target = change.target := rfl
    simp [READERS.User, firstOf_payload asked, unnamed, shown, target, own]

theorem replays_apiToken (named : change.model = "ApiToken") :
    Replays change READERS.ApiToken := by
  have asked : ["created_by", "uid"] ∈ GATE_FIELDS := by decide
  constructor
  · intro ctx
    simp [READERS.ApiToken, firstOf_payload asked, isSelf_null, named]
  · intro ctx
    simp [READERS.ApiToken, firstOf_payload asked, firstOf_fields asked, isSelf_null,
      isSelf_orUndefined, Change.Concerns, OWNED, named, Change.row]

theorem replays_group (named : change.model = "Group") : Replays change READERS.Group := by
  constructor
  · intro ctx
    simp [READERS.Group, named]
  · intro ctx
    simp [READERS.Group]

theorem replays_readers {gate : Gate} (found : readers.lookup change.model = some gate) :
    Replays change gate := by
  have listed := mem_of_lookup found
  simp only [readers, List.mem_cons, Prod.mk.injEq, List.not_mem_nil, or_false] at listed
  rcases listed with ⟨named, rfl⟩ | ⟨named, rfl⟩ | ⟨named, rfl⟩ | ⟨named, rfl⟩ | ⟨named, rfl⟩ |
    ⟨named, rfl⟩ | ⟨named, rfl⟩ | ⟨named, rfl⟩ | ⟨named, rfl⟩ | ⟨named, rfl⟩ | ⟨named, rfl⟩ |
    ⟨named, rfl⟩ | ⟨named, rfl⟩ | ⟨named, rfl⟩
  case inr.inr.inr.inr.inl => exact replays_group named
  case inr.inr.inr.inr.inr.inl => exact replays_user named
  case inr.inr.inr.inr.inr.inr.inr.inl => exact replays_apiToken named
  case inr.inr.inr.inr.inr.inr.inl | inr.inr.inr.inr.inr.inr.inr.inr.inl |
      inr.inr.inr.inr.inr.inr.inr.inr.inr.inr.inr.inl =>
    apply replays_ownerGate (by decide)
    all_goals
      rw [named]
      decide
  all_goals
    apply replays_adminGate
    rw [named]
    decide

/-- An event reaches a socket if it is about a group or the reader is a directory admin, and about
somebody's own tokens not even then.  The feed shows the same events, and beyond these what is the
user's own. -/
theorem visibleTo_row_iff (change : Change) (named : change.model ∈ LIVE_MODELS) (ctx : Context) :
    ∃ canRead row, (Message.model change.topic change.payload).canRead = some canRead ∧
      Live.record change.payload = some row ∧
      (canRead ctx = true ↔
        change.model = "Group" ∨ change.model ≠ "ApiToken" ∧ isDirectoryAdmin ctx = true) ∧
      (visibleTo ctx row = true ↔ canRead ctx = true ∨ change.Concerns ctx.user.uid) := by
  obtain ⟨gate, found⟩ : ∃ gate, readers.lookup change.model = some gate := by
    rw [← Option.isSome_iff_exists]
    exact (show ∀ model ∈ LIVE_MODELS, (readers.lookup model).isSome = true by decide) _ named
  have present : change.model ≠ "" := by
    rintro none
    rw [none] at named
    revert named
    decide
  have replays := replays_readers found
  refine ⟨fun ctx => gate ctx change.payload .null, change.row, ?_, record_payload present,
    replays.live ctx, ?_⟩
  · simp [Message.canRead, parseTopic_topic named, found]
  · have shown : readers.lookup change.row.model = some gate := found
    simp only [visibleTo, shown]
    exact replays.feed ctx

private def requests : Change :=
  ⟨"AccessRequest", .create, .str "q1", .obj [("requestedBy", .str "bob"), ("status", .str "pending")]⟩

theorem visibleTo_row_iff_requests :
    ∃ canRead row, (Message.model requests.topic requests.payload).canRead = some canRead ∧
      Live.record requests.payload = some row ∧
      (canRead ⟨⟨"bob", "uid=bob"⟩, [], false⟩ = true ↔ requests.model = "Group" ∨
        requests.model ≠ "ApiToken" ∧ isDirectoryAdmin ⟨⟨"bob", "uid=bob"⟩, [], false⟩ = true) ∧
      (visibleTo ⟨⟨"bob", "uid=bob"⟩, [], false⟩ row = true ↔
        canRead ⟨⟨"bob", "uid=bob"⟩, [], false⟩ = true ∨ requests.Concerns "bob") :=
  visibleTo_row_iff requests (by decide) ⟨⟨"bob", "uid=bob"⟩, [], false⟩

end ThetaDirectory.Live
