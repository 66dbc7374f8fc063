import ThetaDirectory.Mesh.Registration
import ThetaDirectory.Spokes.Distinct

/-!
# Registry and roster agree

What the roster says about a registered spoke was published by that spoke, through every run in
which a spoke gets an id only when the roster says nothing under it and no call is going to.
-/

namespace ThetaDirectory.Mesh.Registration

open Library Library.Interleaving

/-! ## The property -/

/-- The columns of a site that its spoke publishes. -/
inductive Column where
  | slug
  | gatewayPublicKey
  | gatewayEndpoint
  | gatewayExitPublicKey
  deriving DecidableEq, Repr

namespace Column

def read (site : MeshSite) : Column → Option String
  | slug => site.slug
  | gatewayPublicKey => site.gatewayPublicKey
  | gatewayEndpoint => site.gatewayEndpoint
  | gatewayExitPublicKey => site.gatewayExitPublicKey

/-- What a registration sends for a column. -/
def sent (request : Spokes.Request) (gateway : Gateway) : Column → Option String
  | slug => request.siteSlug
  | gatewayPublicKey => gateway.gatewayPublicKey
  | gatewayEndpoint => gateway.gatewayEndpoint
  | gatewayExitPublicKey => gateway.gatewayExitPublicKey

/-- What a write sets a column to. -/
def written (fields : SiteFields) : Column → Option String
  | slug => fields.slug
  | gatewayPublicKey => fields.gatewayPublicKey
  | gatewayEndpoint => fields.gatewayEndpoint
  | gatewayExitPublicKey => fields.gatewayExitPublicKey.getD none

end Column

/-- The spoke that a registration came to. -/
def Registering.spoke : Registering → Option Spokes.SiteSpoke
  | .entering _ => none
  | .looking spoke _ | .recording spoke _ _ | .registered spoke => some spoke

/-- The call is a registration of the spoke that sent the value. -/
def Call.Sends (id : String) (column : Column) (value : String) : Call → Prop
  | .registration request gateway phase =>
      phase.spoke.map (·.id) = some id ∧ column.sent request gateway = some value
  | _ => False

/-- The spoke has sent the value. -/
def Sent (pool : Pool Cluster Call) (id : String) (column : Column) (value : String) : Prop :=
  pool.Has (Call.Sends id column value)

/-- What a site's row says was sent by the spoke. -/
def Describes (pool : Pool Cluster Call) (id : String) (site : MeshSite) : Prop :=
  ∀ column : Column, ∀ value ∈ truthy (column.read site), Sent pool id column value

/-- A row under the id of a registered spoke describes that spoke. -/
def Agrees (pool : Pool Cluster Call) : Prop :=
  ∀ spoke ∈ pool.shared.registry.rows, ∀ site ∈ pool.shared.sites.rows,
    spoke.ldapServerId = some site.siteId → Describes pool spoke.id site

instance (id : String) (column : Column) (value : String) :
    DecidablePred (Call.Sends id column value)
  | .registration _ _ _ => inferInstanceAs (Decidable (_ ∧ _))
  | .publication _ | .sync _ | .removal _ _ => isFalse not_false

instance (pool : Pool Cluster Call) (id : String) (column : Column) (value : String) :
    Decidable (Sent pool id column value) :=
  inferInstanceAs (Decidable (Pool.Has _ _))

instance (pool : Pool Cluster Call) (id : String) (site : MeshSite) :
    Decidable (Describes pool id site) :=
  decidable_of_iff (∀ column ∈ [Column.slug, .gatewayPublicKey, .gatewayEndpoint,
      .gatewayExitPublicKey], ∀ value ∈ truthy (column.read site), Sent pool id column value)
    ⟨fun all column => all column (by cases column <;> simp), fun all column _ => all column⟩

instance (pool : Pool Cluster Call) : Decidable (Agrees pool) := by
  unfold Agrees
  infer_instance

/-! ## The condition -/

/-- The rows of spokes that a call is going to record, each under the id that it has. -/
def Registering.records : Registering → List (Option Nat × Spokes.SiteSpoke)
  | .entering (.updating row) | .entering (.registered row) =>
      [(Spokes.assignedId row.ldapServerId, row)]
  | .looking spoke siteId | .recording spoke siteId _ => [(some siteId, spoke)]
  | .entering _ | .registered _ => []

def Syncing.records : Syncing → List (Option Nat × Spokes.SiteSpoke)
  | .looking siteId spoke rest _ | .creating siteId spoke rest _ =>
      ((siteId, spoke) :: rest).map fun (siteId, spoke) => (some siteId, spoke)
  | _ => []

def Call.records : Call → List (Option Nat × Spokes.SiteSpoke)
  | .registration _ _ phase => phase.records
  | .sync phase => phase.records
  | .publication _ | .removal _ _ => []

/-- The own site that a call is going to publish. -/
def Call.publishes : Call → Option Nat
  | .publication (.looking own _ _) | .publication (.counting own _)
  | .publication (.creating own _ _) => some own
  | .publication (.updating existing _) => some existing.siteId
  | _ => none

/-- The sites whose rows a call is going to write. -/
def Call.aims (call : Call) : List Nat :=
  call.publishes.toList ++ call.records.filterMap Prod.fst

/-- The id that a call is going to give to a new spoke. -/
def Call.assigns : Call → Option Nat
  | .registration _ _ (.entering (.creating id)) => some id
  | _ => none

/-- The row says nothing about its site. -/
def Blank (site : MeshSite) : Prop := ∀ column : Column, truthy (column.read site) = none

instance (site : MeshSite) : Decidable (Blank site) :=
  decidable_of_iff (∀ column ∈ [Column.slug, .gatewayPublicKey, .gatewayEndpoint,
      .gatewayExitPublicKey], truthy (column.read site) = none)
    ⟨fun all column => all column (by cases column <;> simp), fun all column _ => all column⟩

/-- A node publishes itself under an id that no registered spoke has.  A spoke gets an id only
when the row under it is blank, if there is one, and no other call is going to write it. -/
def Orderly (event : Interleaving.Event Input Spokes.Outcome) (pool : Pool Cluster Call) : Prop :=
  match event with
  | .call input => ∀ siteId ∈ input.start.publishes, ∀ spoke ∈ pool.shared.registry.rows,
      spoke.ldapServerId ≠ some siteId
  | .turn index _ =>
      match pool.calls[index]? with
      | none => True
      | some call => ∀ id ∈ call.assigns,
          (∀ site ∈ pool.shared.sites.rows, site.siteId = id → Blank site) ∧
          ∀ called ∈ pool.calls.eraseIdx index, id ∉ called.aims

instance (event : Interleaving.Event Input Spokes.Outcome) (pool : Pool Cluster Call) :
    Decidable (Orderly event pool) := by
  unfold Orderly
  split
  · infer_instance
  · split <;> infer_instance

/-! ## What a write tells -/

variable {sites after : Sites} {fields : SiteFields} {site copy : MeshSite} {column : Column}
variable {value : String}

/-- The row tells the value in the column. -/
def Tells (site : MeshSite) (column : Column) (value : String) : Prop :=
  value ∈ truthy (column.read site)

/-- A row under the id tells the value in the column. -/
def Told (sites : List MeshSite) (siteId : Nat) (column : Column) (value : String) : Prop :=
  ∃ site ∈ sites, site.siteId = siteId ∧ Tells site column value

theorem tells_onto (tells : Tells (fields.onto site) column value) :
    value ∈ truthy (column.written fields) ∨ Tells site column value := by
  have either {given before : Option String} (member : value ∈ truthy (given.or before)) :
      value ∈ truthy given ∨ value ∈ truthy before := by
    cases given with
    | none => exact Or.inr member
    | some text => exact Or.inl member
  cases column with
  | slug | gatewayPublicKey | gatewayEndpoint => exact either tells
  | gatewayExitPublicKey =>
      cases given : fields.gatewayExitPublicKey with
      | none =>
          change value ∈ truthy (fields.gatewayExitPublicKey.getD _) at tells
          rw [given] at tells
          exact Or.inr tells
      | some key =>
          change value ∈ truthy (fields.gatewayExitPublicKey.getD _) at tells
          change value ∈ truthy (fields.gatewayExitPublicKey.getD _) ∨ _
          rw [given] at tells ⊢
          exact Or.inl tells

theorem told_updateSite (known : Known sites.rows copy)
    (member : site ∈ (updateSite copy.id fields sites).rows) (tells : Tells site column value) :
    Told sites.rows site.siteId column value ∨
      site.siteId = copy.siteId ∧ value ∈ truthy (column.written fields) := by
  obtain ⟨row, there, sameId, sameSite⟩ := known
  obtain ⟨old, memberOld, rfl⟩ := mem_updateSite.mp member
  by_cases same : old.id = copy.id
  · have one : old = row := eq_of_id memberOld there (same.trans sameId.symm)
    rw [if_pos same] at tells ⊢
    rcases tells_onto tells with new | before
    · refine Or.inr ⟨?_, new⟩
      rw [← sameSite, ← one]
      rfl
    · exact Or.inl ⟨old, memberOld, rfl, before⟩
  · rw [if_neg same] at tells ⊢
    exact Or.inl ⟨old, memberOld, rfl, tells⟩

theorem told_createSite {id : String} {siteId : Nat}
    (created : createSite fields id siteId sites = some after) (member : site ∈ after.rows)
    (tells : Tells site column value) :
    Told sites.rows site.siteId column value ∨
      site.siteId = siteId ∧ value ∈ truthy (column.written fields) := by
  rcases (mem_createSite created).mp member with old | rfl
  · exact Or.inl ⟨site, old, rfl, tells⟩
  · rcases tells_onto tells with new | blank
    · exact Or.inr ⟨rfl, new⟩
    · cases column <;> cases blank

/-! ## One turn -/

/-- The call as the registry sees it. -/
def Call.inRegistry : Call → Spokes.Call
  | .registration request _ (.entering phase) => .registration request phase
  | .registration request _ (.looking spoke _) | .registration request _ (.recording spoke _ _)
  | .registration request _ (.registered spoke) => .registration request (.registered spoke)
  | .removal id phase => .removal id phase
  | .publication _ | .sync _ => .removal "" (.ended false)

/-- The row that a call has read and is going to write. -/
def Call.held : Call → Option MeshSite
  | .registration _ _ (.recording _ _ existing) => existing
  | .publication (.updating existing _) => some existing
  | _ => none

/-- A phase of `publishLocalSite`. -/
def ofPublication : Roster.Phase → Bool
  | .looking _ _ _ | .updating _ _ | .counting _ _ | .creating _ _ _ | .pushing | .returned
  | .thrown _ _ => true
  | _ => false

def Call.Fits : Call → Prop
  | .registration _ _ (.recording _ siteId (some existing)) => existing.siteId = siteId
  | .publication phase => ofPublication phase = true
  | _ => True

variable {indexed : Bool} {cluster behind : Cluster} {call next : Call}
variable {sent : String → Column → String → Prop}

/-- What a call relies on: the spokes it is going to record are the only ones with their ids and
have sent their slugs, no spoke has the id it publishes, and the row it has read is there. -/
structure Own (cluster : Cluster) (sent : String → Column → String → Prop) (call : Call) :
    Prop where
  ids : ∀ record ∈ call.records, ∀ siteId ∈ record.1, ∀ spoke ∈ cluster.registry.rows,
    spoke.ldapServerId = some siteId → spoke.id = record.2.id
  slugs : ∀ record ∈ call.records, ∀ slug ∈ truthy record.2.siteSlug, sent record.2.id .slug slug
  publishes : ∀ siteId ∈ call.publishes, ∀ spoke ∈ cluster.registry.rows,
    spoke.ldapServerId ≠ some siteId
  held : ∀ copy ∈ call.held, Known cluster.sites.rows copy
  fits : call.Fits

/-- What a turn does to the registry and the roster. -/
structure Turns (cluster : Cluster) (call : Call) (behind : Cluster) (next : Call)
    (sent : String → Column → String → Prop) : Prop where
  known : ∀ copy, Known cluster.sites.rows copy → Known behind.sites.rows copy
  slugs : ∀ spoke ∈ behind.registry.rows, ∀ slug ∈ truthy spoke.siteSlug, sent spoke.id .slug slug
  spokes : ∀ spoke ∈ behind.registry.rows,
    (∃ old ∈ cluster.registry.rows, old.id = spoke.id ∧ old.ldapServerId = spoke.ldapServerId) ∨
      ∃ id ∈ call.assigns, spoke.ldapServerId = some id
  sites : ∀ site ∈ behind.sites.rows, ∀ column value, Tells site column value →
    Told cluster.sites.rows site.siteId column value ∨ call.assigns = none ∧
      ∀ spoke ∈ behind.registry.rows, spoke.ldapServerId = some site.siteId →
        sent spoke.id column value
  own : Own behind sent next

/-- A call with nothing to write relies on nothing. -/
theorem own_of_none (records : call.records = []) (publishes : call.publishes = none)
    (held : call.held = none) (fits : call.Fits) : Own cluster sent call where
  ids := fun record listed => by
    rw [records] at listed
    cases listed
  slugs := fun record listed => by
    rw [records] at listed
    cases listed
  publishes := fun siteId listed => by
    rw [publishes] at listed
    cases listed
  held := fun copy listed => by
    rw [held] at listed
    cases listed
  fits := fits

/-- A turn that leaves the rows as they are. -/
theorem turns_of_read (rows : behind.registry.rows = cluster.registry.rows)
    (sites : behind.sites = cluster.sites)
    (slugs : ∀ spoke ∈ cluster.registry.rows, ∀ slug ∈ truthy spoke.siteSlug,
      sent spoke.id .slug slug)
    (own : Own behind sent next) : Turns cluster call behind next sent where
  known := fun _ known => sites ▸ known
  slugs := rows ▸ slugs
  spokes := fun spoke listed => Or.inl ⟨spoke, rows ▸ listed, rfl, rfl⟩
  sites := fun site listed _ _ tells => Or.inl ⟨site, sites ▸ listed, rfl, tells⟩
  own := own

/-- A turn that writes to the roster, under an id whose spokes have sent what is written. -/
theorem turns_of_write {after : Sites} {siteId : Nat} {fields : SiteFields}
    (slugs : ∀ spoke ∈ cluster.registry.rows, ∀ slug ∈ truthy spoke.siteSlug,
      sent spoke.id .slug slug)
    (known : ∀ copy, Known cluster.sites.rows copy → Known after.rows copy)
    (told : ∀ site ∈ after.rows, ∀ column value, Tells site column value →
      Told cluster.sites.rows site.siteId column value ∨
        site.siteId = siteId ∧ value ∈ truthy (Column.written fields column))
    (free : call.assigns = none)
    (from_spoke : ∀ spoke ∈ cluster.registry.rows, spoke.ldapServerId = some siteId →
      ∀ column, ∀ value ∈ truthy (Column.written fields column), sent spoke.id column value)
    (own : Own ⟨cluster.registry, after⟩ sent next) :
    Turns cluster call ⟨cluster.registry, after⟩ next sent where
  known := known
  slugs := slugs
  spokes := fun spoke listed => Or.inl ⟨spoke, listed, rfl, rfl⟩
  sites := by
    intro site listed column value tells
    apply (told site listed column value tells).imp_right
    rintro ⟨rfl, written⟩
    exact ⟨free, fun spoke registered same => from_spoke spoke registered same column value written⟩
  own := own

/-! ## Registration -/

variable {request : Spokes.Request} {gateway : Gateway} {spoke : Spokes.SiteSpoke}

theorem spoke_mirror : (gateway.mirror spoke).spoke = some spoke := by
  unfold Gateway.mirror
  split <;> rfl

theorem own_mirror
    (ids : ∀ siteId ∈ Spokes.assignedId spoke.ldapServerId, ∀ other ∈ cluster.registry.rows,
      other.ldapServerId = some siteId → other.id = spoke.id)
    (slugs : ∀ slug ∈ truthy spoke.siteSlug, sent spoke.id .slug slug) :
    Own cluster sent (.registration request gateway (gateway.mirror spoke)) := by
  unfold Gateway.mirror
  split
  · rename_i siteId key assigned _
    constructor
    · intro record listed number member
      cases List.mem_singleton.mp listed
      cases member
      exact ids siteId assigned
    · intro record listed
      cases List.mem_singleton.mp listed
      exact slugs
    · exact fun siteId listed => by cases listed
    · exact fun copy listed => by cases listed
    · trivial
  · exact own_of_none rfl rfl rfl trivial

/-- An assigned id has one spoke. -/
theorem eq_of_assigned (assigned : Spokes.Assigned cluster.registry.rows) {siteId : Nat}
    {other : Spokes.SiteSpoke} (member : spoke ∈ cluster.registry.rows)
    (own : siteId ∈ Spokes.assignedId spoke.ldapServerId) (registered : other ∈ cluster.registry.rows)
    (same : other.ldapServerId = some siteId) : other = spoke := by
  have also : siteId ∈ Spokes.assignedId other.ldapServerId := by
    rw [same]
    exact Option.mem_filter_iff.mpr ⟨rfl, (Option.mem_filter_iff.mp own).2⟩
  exact assigned.eq_of_id registered member also own

/-- A turn of the section that writes nothing. -/
theorem turns_unwritten {phase next : Spokes.Registering} {registry : Spokes.Registry}
    (assigned : Spokes.Assigned cluster.registry.rows)
    (slugs : ∀ spoke ∈ cluster.registry.rows, ∀ slug ∈ truthy spoke.siteSlug,
      sent spoke.id .slug slug)
    (own : Own cluster sent (.registration request gateway (.entering phase)))
    (rows : registry.rows = cluster.registry.rows)
    (found : ∀ row, next = .updating row → row ∈ cluster.registry.rows)
    (ended : ∀ row, next = .registered row → phase = .registered row) :
    Turns cluster (.registration request gateway (.entering phase)) ⟨registry, cluster.sites⟩
      (.registration request gateway (gateway.behind next)) sent := by
  refine turns_of_read ?_ ?_ slugs ?_
  · exact rows
  · rfl
  · cases next with
    | registered row =>
        cases ended row rfl
        have record := List.mem_singleton_self (Spokes.assignedId row.ldapServerId, row)
        apply own_mirror
        · intro siteId number other listed same
          exact own.ids _ record siteId number other (rows ▸ listed) same
        · exact own.slugs _ record
    | updating row =>
        have here := found row rfl
        constructor
        · intro record listed siteId number other registered same
          cases List.mem_singleton.mp listed
          exact congrArg _ (eq_of_assigned assigned here number (rows ▸ registered) same)
        · intro record listed
          cases List.mem_singleton.mp listed
          exact slugs row here
        · exact fun siteId listed => by cases listed
        · exact fun copy listed => by cases listed
        · trivial
    | queued | byEndpoint | bySlug _ | allocating | creating _ | refused _ =>
        exact own_of_none rfl rfl rfl trivial

theorem turns_updated {row : Spokes.SiteSpoke} {registry : Spokes.Registry} {token : String}
    (slugs : ∀ spoke ∈ cluster.registry.rows, ∀ slug ∈ truthy spoke.siteSlug,
      sent spoke.id .slug slug)
    (own : Own cluster sent (.registration request gateway (.entering (.updating row))))
    (sends : ∀ slug ∈ truthy request.siteSlug, sent row.id .slug slug)
    (written : Spokes.update indexed row.id (request.refresh row token) cluster.registry.rows =
      some registry.rows) :
    Turns cluster (.registration request gateway (.entering (.updating row)))
      ⟨registry, cluster.sites⟩
      (.registration request gateway (gateway.mirror ((request.refresh row token).onto row)))
      sent := by
  have record := List.mem_singleton_self (Spokes.assignedId row.ldapServerId, row)
  have refreshed : ∀ slug ∈ truthy ((truthy request.siteSlug).or (truthy row.siteSlug)),
      sent row.id .slug slug := by
    intro slug given
    rcases Option.or_eq_some_iff.mp (Option.mem_filter_iff.mp given).1 with new | ⟨-, before⟩
    · exact sends slug new
    · exact own.slugs _ record slug before
  have olds : ∀ spoke ∈ registry.rows, ∃ old ∈ cluster.registry.rows, old.id = spoke.id ∧
      old.ldapServerId = spoke.ldapServerId := by
    intro spoke listed
    rcases Spokes.mem_update written listed with old | ⟨old, there, -, rfl⟩
    · exact ⟨spoke, old, rfl, rfl⟩
    · exact ⟨old, there, rfl, rfl⟩
  constructor
  · exact fun _ known => known
  · intro spoke listed slug given
    rcases Spokes.mem_update written listed with old | ⟨old, -, same, rfl⟩
    · exact slugs spoke old slug given
    · have own_slug := refreshed slug given
      rw [← same] at own_slug
      exact own_slug
  · exact fun spoke listed => Or.inl (olds spoke listed)
  · exact fun site listed _ _ tells => Or.inl ⟨site, listed, rfl, tells⟩
  · apply own_mirror
    · intro siteId number other listed same
      obtain ⟨old, there, sameId, sameNumber⟩ := olds other listed
      rw [← sameId]
      exact own.ids _ record siteId number old there (sameNumber.trans same)
    · exact refreshed

theorem turns_created {id : Nat} {outcome : Spokes.Outcome} {registry : Spokes.Registry}
    (slugs : ∀ spoke ∈ cluster.registry.rows, ∀ slug ∈ truthy spoke.siteSlug,
      sent spoke.id .slug slug)
    (claimable : Spokes.Claimable indexed (some id) cluster.registry.rows)
    (sends : ∀ slug ∈ truthy request.siteSlug, sent (request.row id outcome).id .slug slug)
    (written : Spokes.create indexed (request.row id outcome) cluster.registry.rows =
      some registry.rows) :
    Turns cluster (.registration request gateway (.entering (.creating id)))
      ⟨registry, cluster.sites⟩
      (.registration request gateway (gateway.mirror (request.row id outcome))) sent := by
  obtain ⟨rows, admitted⟩ := Spokes.create_cases written
  have named : ∀ slug ∈ truthy (request.row id outcome).siteSlug,
      sent (request.row id outcome).id .slug slug := by
    intro slug given
    rcases Option.or_eq_some_iff.mp (Option.mem_filter_iff.mp given).1 with new | ⟨-, none⟩
    · exact sends slug new
    · cases none
  have either : ∀ spoke ∈ registry.rows,
      spoke ∈ cluster.registry.rows ∨ spoke = request.row id outcome := by
    intro spoke listed
    rw [rows] at listed
    exact (List.mem_append.mp listed).imp_right List.mem_singleton.mp
  constructor
  · exact fun _ known => known
  · intro spoke listed slug given
    rcases either spoke listed with old | rfl
    · exact slugs spoke old slug given
    · exact named slug given
  · intro spoke listed
    rcases either spoke listed with old | rfl
    · exact Or.inl ⟨spoke, old, rfl, rfl⟩
    · exact Or.inr ⟨id, rfl, rfl⟩
  · exact fun site listed _ _ tells => Or.inl ⟨site, listed, rfl, tells⟩
  · apply own_mirror
    · intro siteId number other listed same
      rcases either other listed with old | rfl
      · have own : siteId ∈ Spokes.assignedId (some id) := number
        have there : siteId ∈ Spokes.serverIds cluster.registry.rows := by
          apply List.mem_filterMap.mpr ⟨other, old, ?_⟩
          rw [same]
          exact Option.mem_filter_iff.mpr ⟨rfl, (Option.mem_filter_iff.mp number).2⟩
        exact absurd there
          (claimable.notMem admitted (List.Subset.refl _) siteId own)
      · rfl
    · exact named

theorem turns_entering {phase : Spokes.Registering} {outcome : Spokes.Outcome}
    (assigned : Spokes.Assigned cluster.registry.rows)
    (registered : Spokes.Own indexed cluster.registry (.registration request phase))
    (slugs : ∀ spoke ∈ cluster.registry.rows, ∀ slug ∈ truthy spoke.siteSlug,
      sent spoke.id .slug slug)
    (own : Own cluster sent (.registration request gateway (.entering phase)))
    (gains : ∀ id column value,
      Call.Sends id column value ((Call.registration request gateway (.entering phase)).turn
        indexed outcome cluster).2 → sent id column value) :
    Turns cluster (.registration request gateway (.entering phase))
      ((Call.registration request gateway (.entering phase)).turn indexed outcome cluster).1
      ((Call.registration request gateway (.entering phase)).turn indexed outcome cluster).2
      sent := by
  simp only [Call.turn, Registering.turn] at gains ⊢
  -- what a registration has sent when it ends at a row
  have sends {row : Spokes.SiteSpoke}
      (ended : (request.turn indexed outcome cluster.registry phase).2 = .registered row)
      (slug : String) (own : slug ∈ truthy request.siteSlug) : sent row.id .slug slug := by
    apply gains
    rw [ended]
    exact ⟨congrArg _ spoke_mirror, (Option.mem_filter_iff.mp own).1⟩
  rcases @Spokes.turn_cases indexed cluster.registry request phase outcome with
    ⟨rows, found, ended⟩ | ⟨row, rfl, written, ended⟩ | ⟨id, rfl, written, ended⟩
  · exact turns_unwritten assigned slugs own rows found ended
  · have sent_row := sends ended
    rw [ended]
    exact turns_updated slugs own sent_row written
  · have sent_row := sends ended
    rw [ended]
    exact turns_created slugs registered.sound sent_row written

/-- What the mirror writes was sent by the registration, and the slug by the spoke. -/
theorem sent_fields
    (slugs : ∀ slug ∈ truthy spoke.siteSlug, sent spoke.id .slug slug)
    (sends : ∀ column value, column.sent request gateway = some value → sent spoke.id column value)
    (column : Column) (value : String)
    (written : value ∈ truthy (column.written (gateway.fields spoke))) :
    sent spoke.id column value := by
  have filled {text : Option String} (given : value ∈ truthy (some (text.getD ""))) :
      value ∈ truthy text := by
    cases text with
    | none => cases given
    | some text => exact given
  cases column with
  | slug => exact slugs value (filled written)
  | gatewayPublicKey => exact sends .gatewayPublicKey value (Option.mem_filter_iff.mp written).1
  | gatewayEndpoint =>
      exact sends .gatewayEndpoint value (Option.mem_filter_iff.mp (filled written)).1
  | gatewayExitPublicKey =>
      apply sends .gatewayExitPublicKey value
      change gateway.gatewayExitPublicKey = some value
      change value ∈ truthy ((gateway.gatewayExitPublicKey.map _).getD none) at written
      cases key : gateway.gatewayExitPublicKey with
      | none =>
          rw [key] at written
          cases written
      | some text =>
          rw [key] at written
          have kept : value ∈ truthy (some text) := (Option.mem_filter_iff.mp written).1
          exact (Option.mem_filter_iff.mp kept).1

theorem turns_mirror {siteId : Nat} {existing : Option MeshSite} {uuid : String} {after : Sites}
    (slugs : ∀ spoke ∈ cluster.registry.rows, ∀ slug ∈ truthy spoke.siteSlug,
      sent spoke.id .slug slug)
    (own : Own cluster sent (.registration request gateway (.recording spoke siteId existing)))
    (sends : ∀ column value, column.sent request gateway = some value → sent spoke.id column value)
    (written : gateway.record spoke siteId uuid cluster.sites existing = some after) :
    Turns cluster (.registration request gateway (.recording spoke siteId existing))
      ⟨cluster.registry, after⟩ (.registration request gateway (.registered spoke)) sent := by
  have record := List.mem_singleton_self (some siteId, spoke)
  have from_spoke : ∀ other ∈ cluster.registry.rows, other.ldapServerId = some siteId →
      ∀ column, ∀ value ∈ truthy (Column.written (gateway.fields spoke) column),
        sent other.id column value := by
    intro other listed same column value filled
    rw [own.ids _ record siteId rfl other listed same]
    exact sent_fields (own.slugs _ record) sends column value filled
  cases existing with
  | some existing =>
      cases written
      have known := own.held existing rfl
      apply turns_of_write slugs (fun _ => known_updateSite) _ rfl from_spoke
      · exact own_of_none rfl rfl rfl trivial
      · intro site listed column value tells
        rw [← show existing.siteId = siteId from own.fits]
        exact told_updateSite known listed tells
  | none =>
      apply turns_of_write slugs (fun _ => known_createSite written) _ rfl from_spoke
      · exact own_of_none rfl rfl rfl trivial
      · intro site listed column value tells
        have told := told_createSite written listed tells
        cases column <;> exact told

theorem turns_registration {phase : Registering} {outcome : Spokes.Outcome}
    (assigned : Spokes.Assigned cluster.registry.rows)
    (registered : Spokes.Own indexed cluster.registry
      (Call.registration request gateway phase).inRegistry)
    (slugs : ∀ spoke ∈ cluster.registry.rows, ∀ slug ∈ truthy spoke.siteSlug,
      sent spoke.id .slug slug)
    (own : Own cluster sent (.registration request gateway phase))
    (gains : ∀ id column value, Call.Sends id column value
      ((Call.registration request gateway phase).turn indexed outcome cluster).2 →
        sent id column value) :
    Turns cluster (.registration request gateway phase)
      ((Call.registration request gateway phase).turn indexed outcome cluster).1
      ((Call.registration request gateway phase).turn indexed outcome cluster).2 sent := by
  have ended (spoke : Spokes.SiteSpoke) :
      Own cluster sent (.registration request gateway (.registered spoke)) :=
    own_of_none rfl rfl rfl trivial
  cases phase with
  | entering phase => exact turns_entering assigned registered slugs own gains
  | looking spoke siteId =>
      simp only [Call.turn, Registering.turn]
      split
      · apply turns_of_read rfl rfl slugs
        constructor
        · exact own.ids
        · exact own.slugs
        · exact fun siteId listed => by cases listed
        · intro copy found
          exact (known_of_bySiteId found).1
        · cases found : bySiteId cluster.sites.rows siteId with
          | none => trivial
          | some existing => exact (known_of_bySiteId found).2
      · exact turns_of_read rfl rfl slugs (ended spoke)
  | recording spoke siteId existing =>
      simp only [Call.turn, Registering.turn] at gains ⊢
      split at gains
      · rename_i after written
        split at written
        · apply turns_mirror slugs own _ written
          exact fun column value same => gains spoke.id column value ⟨rfl, same⟩
        · cases written
      · exact turns_of_read rfl rfl slugs (ended spoke)
  | registered spoke => exact turns_of_read rfl rfl slugs (ended spoke)

/-! ## The other calls -/

/-- Fewer records are fewer to rely on. -/
theorem own_syncNext {rest : List (Nat × Spokes.SiteSpoke)} {created : Nat}
    (ids : ∀ pair ∈ rest, ∀ spoke ∈ cluster.registry.rows, spoke.ldapServerId = some pair.1 →
      spoke.id = pair.2.id)
    (slugs : ∀ pair ∈ rest, ∀ slug ∈ truthy pair.2.siteSlug, sent pair.2.id .slug slug) :
    Own cluster sent (.sync (syncNext created rest)) := by
  cases rest with
  | nil => exact own_of_none rfl rfl rfl trivial
  | cons pair rest =>
      constructor
      · intro record listed siteId number spoke registered same
        obtain ⟨pair, among, rfl⟩ := List.mem_map.mp listed
        cases number
        exact ids pair among spoke registered same
      · intro record listed
        obtain ⟨pair, among, rfl⟩ := List.mem_map.mp listed
        exact slugs pair among
      · exact fun siteId listed => by cases listed
      · exact fun copy listed => by cases listed
      · trivial

theorem mem_inMesh {spokes : List Spokes.SiteSpoke} {pair : Nat × Spokes.SiteSpoke}
    (listed : pair ∈ inMesh spokes) :
    pair.2 ∈ spokes ∧ pair.1 ∈ Spokes.assignedId pair.2.ldapServerId := by
  obtain ⟨spoke, member, found⟩ := List.mem_filterMap.mp listed
  obtain ⟨siteId, kept, rfl⟩ := Option.map_eq_some_iff.mp found
  exact ⟨member, (Option.mem_filter_iff.mp kept).1⟩

theorem sent_identity (slugs : ∀ slug ∈ truthy spoke.siteSlug, sent spoke.id .slug slug)
    (column : Column) (value : String) (written : value ∈ truthy (column.written (identity spoke))) :
    sent spoke.id column value := by
  cases column with
  | slug =>
      apply slugs value
      change value ∈ truthy (some (spoke.siteSlug.getD "")) at written
      cases slug : spoke.siteSlug with
      | none =>
          rw [slug] at written
          cases written
      | some text => rwa [slug] at written
  | gatewayPublicKey | gatewayEndpoint | gatewayExitPublicKey => cases written

theorem turns_sync {phase : Syncing} {outcome : Spokes.Outcome}
    (assigned : Spokes.Assigned cluster.registry.rows)
    (slugs : ∀ spoke ∈ cluster.registry.rows, ∀ slug ∈ truthy spoke.siteSlug,
      sent spoke.id .slug slug)
    (own : Own cluster sent (.sync phase)) :
    Turns cluster (.sync phase) ((Call.sync phase).turn indexed outcome cluster).1
      ((Call.sync phase).turn indexed outcome cluster).2 sent := by
  have quiet {call next : Call} (own : Own cluster sent next) :
      Turns cluster call cluster next sent := turns_of_read rfl rfl slugs own
  have ended (next : Syncing) (records : next.records = []) : Own cluster sent (.sync next) :=
    own_of_none records rfl rfl trivial
  -- what is left to record behind one spoke
  have later {after : Cluster} {siteId : Nat} {spoke : Spokes.SiteSpoke}
      {rest : List (Nat × Spokes.SiteSpoke)} {created count : Nat}
      (same : after.registry = cluster.registry)
      (own : Own cluster sent (.sync (.looking siteId spoke rest created))) :
      Own after sent (.sync (syncNext count rest)) := by
    have record {pair : Nat × Spokes.SiteSpoke} (listed : pair ∈ rest) :
        (some pair.1, pair.2) ∈ (Call.sync (.looking siteId spoke rest created)).records :=
      List.mem_map.mpr ⟨pair, List.mem_cons_of_mem _ listed, rfl⟩
    apply own_syncNext
    · intro pair listed
      rw [same]
      exact own.ids _ (record listed) pair.1 rfl
    · exact fun pair listed => own.slugs _ (record listed)
  cases phase with
  | listing =>
      simp only [Call.turn, Syncing.turn]
      split
      · apply quiet
        apply own_syncNext
        · intro pair listed spoke registered same
          obtain ⟨member, own⟩ := mem_inMesh listed
          exact congrArg _ (eq_of_assigned assigned member own registered same)
        · exact fun pair listed => slugs pair.2 (mem_inMesh listed).1
      · exact quiet (ended _ rfl)
  | looking siteId spoke rest created =>
      simp only [Call.turn, Syncing.turn]
      split
      · split
        · exact quiet (later rfl own)
        · exact quiet ⟨own.ids, own.slugs, own.publishes, own.held, own.fits⟩
      · exact quiet (ended _ rfl)
  | creating siteId spoke rest created =>
      have looking : Own cluster sent (.sync (.looking siteId spoke rest created)) :=
        ⟨own.ids, own.slugs, own.publishes, own.held, own.fits⟩
      have record : (some siteId, spoke) ∈
          (Call.sync (.creating siteId spoke rest created)).records := List.mem_cons_self
      simp only [Call.turn, Syncing.turn]
      split
      · rename_i after written
        split at written
        · apply turns_of_write slugs (fun _ => known_createSite written)
            (fun site listed column value => told_createSite written listed) rfl _ (later rfl looking)
          intro other listed same column value filled
          rw [own.ids _ record siteId rfl other listed same]
          exact sent_identity (own.slugs _ record) column value filled
        · cases written
      · exact quiet (ended _ rfl)
  | returned created => exact quiet own
  | thrown error => exact quiet own

theorem turns_removal {id : String} {phase : Spokes.Removing} {outcome : Spokes.Outcome}
    (slugs : ∀ spoke ∈ cluster.registry.rows, ∀ slug ∈ truthy spoke.siteSlug,
      sent spoke.id .slug slug) :
    Turns cluster (.removal id phase) ((Call.removal id phase).turn indexed outcome cluster).1
      ((Call.removal id phase).turn indexed outcome cluster).2 sent := by
  have fewer : ∀ spoke ∈ (phase.turn id outcome cluster.registry).1.rows,
      spoke ∈ cluster.registry.rows := by
    intro spoke listed
    cases phase with
    | finding =>
        simp only [Spokes.Removing.turn] at listed
        split at listed <;> exact listed
    | deleting =>
        simp only [Spokes.Removing.turn] at listed
        split at listed
        · exact (List.mem_filter.mp listed).1
        · exact listed
    | ended found => exact listed
  constructor
  · exact fun _ known => known
  · exact fun spoke listed => slugs spoke (fewer spoke listed)
  · exact fun spoke listed => Or.inl ⟨spoke, fewer spoke listed, rfl, rfl⟩
  · exact fun site listed _ _ tells => Or.inl ⟨site, listed, rfl, tells⟩
  · exact own_of_none rfl rfl rfl trivial

theorem turns_publication {phase : Roster.Phase} {outcome : Spokes.Outcome}
    (slugs : ∀ spoke ∈ cluster.registry.rows, ∀ slug ∈ truthy spoke.siteSlug,
      sent spoke.id .slug slug)
    (own : Own cluster sent (.publication phase)) :
    Turns cluster (.publication phase) ((Call.publication phase).turn indexed outcome cluster).1
      ((Call.publication phase).turn indexed outcome cluster).2 sent := by
  have quiet {call next : Call} (own : Own cluster sent next) :
      Turns cluster call cluster next sent := turns_of_read rfl rfl slugs own
  have ended {after : Cluster} (next : Roster.Phase)
      (publishes : (Call.publication next).publishes = none)
      (held : (Call.publication next).held = none) (fits : ofPublication next = true) :
      Own after sent (.publication next) :=
    own_of_none rfl publishes held fits
  -- a phase that goes on with the id of the one before it
  have follows {next : Roster.Phase} {siteId : Nat}
      (before : (Call.publication phase).publishes = some siteId)
      (same : (Call.publication next).publishes = some siteId)
      (held : ∀ copy ∈ (Call.publication next).held, Known cluster.sites.rows copy)
      (fits : ofPublication next = true) : Own cluster sent (.publication next) := by
    refine ⟨fun record listed => ?_, fun record listed => ?_, ?_, held, fits⟩
    · cases listed
    · cases listed
    · rw [same, ← before]
      exact own.publishes
  -- no spoke has the id that is published
  have alone {siteId : Nat} {fields : SiteFields}
      (aims : (Call.publication phase).publishes = some siteId) :
      ∀ spoke ∈ cluster.registry.rows, spoke.ldapServerId = some siteId →
        ∀ column, ∀ value ∈ truthy (Column.written fields column), sent spoke.id column value :=
    fun spoke registered same => absurd same (own.publishes siteId aims spoke registered)
  have fits := own.fits
  cases phase with
  | looking siteId siteSlug patch =>
      cases ok : outcome.ok with
      | false =>
          simp only [Call.turn, Roster.roster, Roster.Phase.write, ok, Bool.false_eq_true, reduceIte]
          exact quiet (ended _ rfl rfl rfl)
      | true =>
          simp only [Call.turn, Roster.roster, Roster.Phase.write, Roster.Phase.next, ok, reduceIte]
          apply quiet
          cases found : bySiteId cluster.sites.rows siteId with
          | some existing =>
              obtain ⟨known, same⟩ := known_of_bySiteId found
              refine follows rfl ?_ ?_ rfl
              · exact congrArg some same
              · intro copy held
                cases held
                exact known
          | none =>
              dsimp only
              split
              · exact follows rfl rfl (fun copy held => by cases held) rfl
              · exact follows rfl rfl (fun copy held => by cases held) rfl
  | updating existing fields =>
      cases ok : outcome.ok with
      | false =>
          simp only [Call.turn, Roster.roster, Roster.Phase.write, ok, Bool.false_eq_true, reduceIte]
          exact quiet (ended _ rfl rfl rfl)
      | true =>
          simp only [Call.turn, Roster.roster, Roster.Phase.write, Roster.Phase.next, ok, reduceIte]
          have known := own.held existing rfl
          exact turns_of_write slugs (fun _ => known_updateSite)
            (fun site listed column value => told_updateSite known listed) rfl (alone rfl)
            (ended _ rfl rfl rfl)
  | counting siteId fields =>
      cases ok : outcome.ok with
      | false =>
          simp only [Call.turn, Roster.roster, Roster.Phase.write, ok, Bool.false_eq_true, reduceIte]
          exact quiet (ended _ rfl rfl rfl)
      | true =>
          simp only [Call.turn, Roster.roster, Roster.Phase.write, Roster.Phase.next, ok, reduceIte]
          exact quiet (follows rfl rfl (fun copy held => by cases held) rfl)
  | creating siteId isHub fields =>
      simp only [Call.turn, Roster.roster]
      split
      · rename_i after written
        simp only [Roster.Phase.write] at written
        split at written
        · exact turns_of_write slugs (fun _ => known_createSite written)
            (fun site listed column value => told_createSite written listed) rfl (alone rfl)
            (ended _ rfl rfl rfl)
        · cases written
      · exact quiet (ended _ rfl rfl rfl)
  | pushing => exact quiet (ended _ rfl rfl rfl)
  | returned => exact quiet (ended _ rfl rfl rfl)
  | thrown error status => exact quiet (ended _ rfl rfl rfl)
  | finding _ | listing _ | clearing _ _ _ | marking _ | adopting _ _ | writing _ _ _ => cases fits

theorem turns_turn {outcome : Spokes.Outcome} (assigned : Spokes.Assigned cluster.registry.rows)
    (registered : Spokes.Own indexed cluster.registry call.inRegistry)
    (slugs : ∀ spoke ∈ cluster.registry.rows, ∀ slug ∈ truthy spoke.siteSlug,
      sent spoke.id .slug slug)
    (own : Own cluster sent call)
    (gains : ∀ id column value, Call.Sends id column value (call.turn indexed outcome cluster).2 →
      sent id column value) :
    Turns cluster call (call.turn indexed outcome cluster).1 (call.turn indexed outcome cluster).2
      sent := by
  cases call with
  | registration request gateway phase =>
      exact turns_registration assigned registered slugs own gains
  | publication phase => exact turns_publication slugs own
  | sync phase => exact turns_sync assigned slugs own
  | removal id phase => exact turns_removal slugs

/-! ## The registry's own part -/

theorem inRegistry_behind (phase : Spokes.Registering) :
    (Call.registration request gateway (gateway.behind phase)).inRegistry =
      .registration request phase := by
  cases phase with
  | registered row =>
      change (Call.registration request gateway (gateway.mirror row)).inRegistry = _
      unfold Gateway.mirror
      split <;> rfl
  | _ => rfl

/-- A turn behind the section leaves the registry and its part of the call alone. -/
theorem turnOk_same (assigned : Spokes.Assigned cluster.registry.rows)
    (registered : Spokes.Own indexed cluster.registry call.inRegistry)
    (outside : ¬ call.inRegistry.InSection) (rows : behind.registry = cluster.registry)
    (same : next.inRegistry = call.inRegistry) :
    Spokes.TurnOk indexed cluster.registry call.inRegistry behind.registry next.inRegistry := by
  rw [rows, same]
  exact ⟨assigned, registered, Or.inr ⟨List.Subset.refl _, fun locked => ⟨locked, outside⟩⟩⟩

theorem turnOk_turn {outcome : Spokes.Outcome} (assigned : Spokes.Assigned cluster.registry.rows)
    (registered : Spokes.Own indexed cluster.registry call.inRegistry) :
    Spokes.TurnOk indexed cluster.registry call.inRegistry
      (call.turn indexed outcome cluster).1.registry
      (call.turn indexed outcome cluster).2.inRegistry := by
  cases call with
  | registration request gateway phase =>
      cases phase with
      | entering phase =>
          simp only [Call.turn, Registering.turn, inRegistry_behind]
          exact Spokes.turnOk_registration outcome assigned registered
      | looking spoke siteId =>
          apply turnOk_same assigned registered id
          · simp only [Call.turn, Registering.turn]
            split <;> rfl
          · simp only [Call.turn, Registering.turn]
            split <;> rfl
      | recording spoke siteId existing =>
          apply turnOk_same assigned registered id
          · simp only [Call.turn, Registering.turn]
            split <;> rfl
          · simp only [Call.turn, Registering.turn]
            split <;> rfl
      | registered spoke => exact turnOk_same assigned registered id rfl rfl
  | publication phase => exact turnOk_same assigned registered id rfl rfl
  | sync phase =>
      apply turnOk_same assigned registered id
      · cases phase <;> simp only [Call.turn, Syncing.turn]
        repeat' (first | rfl | split)
      · rfl
  | removal id phase => exact Spokes.turnOk_removal outcome assigned

/-! ## Every event -/

/-- The registry is sound, every call has its part, what the spokes' rows say was sent, and the
property holds. -/
structure Sound (indexed : Bool) (pool : Pool Cluster Call) : Prop where
  registry : Outlined (fun cluster => Spokes.Assigned cluster.registry.rows)
    (fun cluster call => Spokes.Own indexed cluster.registry call.inRegistry)
    (fun call called => Spokes.Apart call.inRegistry called.inRegistry) pool
  own : ∀ (index : Nat) (call : Call), pool.calls[index]? = some call →
    Own pool.shared (Sent pool) call
  slugs : ∀ spoke ∈ pool.shared.registry.rows, ∀ slug ∈ truthy spoke.siteSlug,
    Sent pool spoke.id .slug slug
  agrees : Agrees pool

variable {pool : Pool Cluster Call}

theorem Own.mono {grown : String → Column → String → Prop} (own : Own cluster sent call)
    (keeps : ∀ id column value, sent id column value → grown id column value) :
    Own cluster grown call where
  ids := own.ids
  slugs := fun record listed slug given => keeps _ _ _ (own.slugs record listed slug given)
  publishes := own.publishes
  held := own.held
  fits := own.fits

/-- A registration that came to a spoke stays with it. -/
theorem sends_turn {outcome : Spokes.Outcome} {id : String} (sends : call.Sends id column value) :
    (call.turn indexed outcome cluster).2.Sends id column value := by
  cases call with
  | registration request gateway phase =>
      refine ⟨?_, sends.2⟩
      have came := sends.1
      cases phase with
      | entering phase => cases came
      | looking spoke siteId =>
          dsimp only [Registering.turn]
          split <;> exact came
      | recording spoke siteId existing =>
          dsimp only [Registering.turn]
          split <;> exact came
      | registered spoke => exact came
  | publication _ | sync _ | removal _ _ => cases sends

theorem own_start {input : Input} (free : ∀ siteId ∈ input.start.publishes,
    ∀ spoke ∈ cluster.registry.rows, spoke.ldapServerId ≠ some siteId) :
    Own cluster sent input.start := by
  have nothing (records : input.start.records = []) (held : input.start.held = none)
      (fits : input.start.Fits) : Own cluster sent input.start := by
    refine ⟨fun record listed => ?_, fun record listed => ?_, free, fun copy listed => ?_, fits⟩
    · rw [records] at listed
      cases listed
    · rw [records] at listed
      cases listed
    · rw [held] at listed
      cases listed
  cases input with
  | register request gateway =>
      apply nothing
      · simp only [Input.start]
        split <;> rfl
      · rfl
      · trivial
  | publishLocalSite own siteSlug patch =>
      apply nothing
      · rfl
      · simp only [Input.start, Roster.Input.start]
        repeat' (first | rfl | split)
      · simp only [Input.start, Roster.Input.start]
        repeat' (first | rfl | split)
  | syncFromSpokes isMaster =>
      cases isMaster <;> exact nothing rfl rfl trivial
  | remove isMaster id => exact nothing rfl rfl trivial

theorem outside_start (input : Input) : ¬ input.start.inRegistry.InSection ∧
    ∀ rows, Spokes.Call.Sound indexed rows input.start.inRegistry := by
  cases input with
  | register request gateway =>
      simp only [Input.start]
      split
      · exact ⟨id, fun _ => trivial⟩
      · exact ⟨id, fun _ => trivial⟩
  | publishLocalSite _ _ _ | syncFromSpokes _ | remove _ _ => exact ⟨id, fun _ => trivial⟩

/-- A turn leaves what another call relies on alone, unless it gives out an id that the other is
going to write under. -/
theorem own_beside {called : Call} (turns : Turns cluster call behind next sent)
    (own : Own cluster sent called) (free : ∀ id ∈ call.assigns, id ∉ called.aims) :
    Own behind sent called where
  ids := by
    intro record listed siteId number spoke registered same
    rcases turns.spokes spoke registered with ⟨old, there, sameId, sameNumber⟩ | ⟨id, assigns, new⟩
    · rw [← sameId]
      exact own.ids record listed siteId number old there (sameNumber.trans same)
    · rw [new] at same
      cases same
      have aimed := List.mem_append_right called.publishes.toList
        (List.mem_filterMap.mpr ⟨record, listed, number⟩)
      exact absurd aimed (free siteId assigns)
  slugs := own.slugs
  publishes := by
    intro siteId publishes spoke registered same
    rcases turns.spokes spoke registered with ⟨old, there, -, sameNumber⟩ | ⟨id, assigns, new⟩
    · exact own.publishes siteId publishes old there (sameNumber.trans same)
    · rw [new] at same
      cases same
      exact free siteId assigns (List.mem_append_left _ (Option.mem_toList.mpr publishes))
  held := fun copy listed => turns.known copy (own.held copy listed)
  fits := own.fits

theorem sound_call {input : Input} (sound : Sound indexed pool)
    (orderly : Orderly (.call input) pool) :
    Sound indexed ((mesh indexed).apply (.call input) pool) where
  registry := by
    obtain ⟨outside, fits⟩ := @outside_start indexed input
    apply sound.registry.apply_call (fun _ _ => Spokes.apart_symm)
    · exact ⟨sound.registry.shared, fun inside => absurd inside outside, fits _⟩
    · exact fun index called found =>
        ⟨sound.registry.each index called found, fun both => outside both.1⟩
  own := by
    intro index call found
    rcases getElem?_apply_call (mesh indexed) pool input found with old | ⟨-, rfl⟩
    · exact (sound.own index call old).mono fun _ _ _ => has_apply_call
    · exact own_start orderly
  slugs := fun spoke listed slug given => has_apply_call (sound.slugs spoke listed slug given)
  agrees := fun spoke listed site there same column value tells =>
    has_apply_call (sound.agrees spoke listed site there same column value tells)

theorem sound_turn {index : Nat} {outcome : Spokes.Outcome} (sound : Sound indexed pool)
    (orderly : Orderly (.turn index outcome) pool) :
    Sound indexed ((mesh indexed).apply (.turn index outcome) pool) := by
  cases found : pool.calls[index]? with
  | none => rwa [apply_turn_of_none found]
  | some call =>
      simp only [Orderly, found] at orderly
      have grows : ∀ id column value, Sent pool id column value →
          Sent ((mesh indexed).apply (.turn index outcome) pool) id column value := by
        intro id column value sent
        rw [apply_turn_of_some found]
        exact has_set found sends_turn sent
      have own := sound.own index call found
      have gains : ∀ id column value,
          Call.Sends id column value (call.turn indexed outcome pool.shared).2 →
          Sent ((mesh indexed).apply (.turn index outcome) pool) id column value := by
        intro id column value sends
        rw [apply_turn_of_some found]
        exact has_set_self found sends
      have turns := turns_turn sound.registry.shared (sound.registry.each index call found)
        (fun spoke listed slug given => grows _ _ _ (sound.slugs spoke listed slug given))
        (own.mono grows) gains
      constructor
      · apply sound.registry.apply_turn (fun _ _ => Spokes.apart_symm)
        intro turning here
        have ok := @turnOk_turn indexed pool.shared turning outcome sound.registry.shared
          (sound.registry.each index turning here)
        refine ⟨ok.assigned, ok.own, fun other called different foundOther => ?_⟩
        exact ok.beside (sound.registry.each other called foundOther)
          (sound.registry.apart index other turning called different.symm here foundOther)
      · intro other called there
        rw [shared_apply_turn found]
        rcases getElem?_apply_turn found there with ⟨rfl, rfl⟩ | ⟨different, old⟩
        · exact turns.own
        · apply own_beside turns ((sound.own other called old).mono grows)
          intro id assigns
          apply (orderly id assigns).2 called
          exact List.mem_eraseIdx_iff_getElem?.mpr ⟨other, different, old⟩
      · rw [shared_apply_turn found]
        exact turns.slugs
      · intro spoke listed site there same column value tells
        rw [shared_apply_turn found] at listed there
        rcases turns.sites site there column value tells with ⟨row, member, sameSite, told⟩ | filled
        · rcases turns.spokes spoke listed with ⟨old, was, sameId, sameNumber⟩ | ⟨id, assigns, new⟩
          · rw [← sameId]
            apply grows
            apply sound.agrees old was row member _ column value told
            rw [sameNumber, same, sameSite]
          · have number : site.siteId = id := Option.some.inj (same.symm.trans new)
            have blank := (orderly id assigns).1 row member (sameSite.trans number) column
            rw [Tells, blank] at told
            cases told
        · exact filled.2 spoke listed same

theorem sound_apply (event : Interleaving.Event Input Spokes.Outcome) (pool : Pool Cluster Call)
    (sound : Sound indexed pool) (orderly : Orderly event pool) :
    Sound indexed ((mesh indexed).apply event pool) := by
  cases event with
  | call input => exact sound_call sound orderly
  | turn index outcome => exact sound_turn sound orderly

theorem sound_start : Sound indexed (start sites) where
  registry := {
    shared := ⟨List.nodup_nil, fun id listed => by cases listed⟩
    each := fun _ _ found => by cases found
    apart := fun _ _ _ _ _ found => by cases found }
  own := fun _ _ found => by cases found
  slugs := fun _ listed => by cases listed
  agrees := fun _ listed => by cases listed

/-- In every run, whatever the database fails, the rows under the ids of registered spokes
describe those spokes, provided that spokes get ids as above. -/
theorem agrees_run {events : List (Interleaving.Event Input Spokes.Outcome)}
    (orderly : ∀ step ∈ Runs.steps (mesh indexed).apply events (start sites),
      Orderly step.operation step.before) :
    ∀ step ∈ Runs.steps (mesh indexed).apply events (start sites), Agrees step.after := by
  intro step member
  have sound := Runs.forall_steps_inv sound_start orderly sound_apply step member
  exact sound.2.agrees

/-! ## Runs -/

def gatewayOf (name : String) : Gateway :=
  ⟨some ("key of " ++ name), some (name ++ ":51820"), none, none, none, none, none, none, none⟩

def noGateway : Gateway := ⟨none, none, none, none, none, none, none, none, none⟩

def registers (name : String) (gateway : Gateway) : Input :=
  .register ⟨"https://" ++ name, some name, none, none, none⟩ gateway

def goesThrough (index count : Nat) (uuid : String) :
    List (Interleaving.Event Input Spokes.Outcome) :=
  List.replicate count (.turn index ⟨true, "", uuid, "token of " ++ uuid⟩)

/-- The master publishes itself, two spokes register, the first while the roster is synced, and
the first is removed. -/
def twoSpokes : List (Interleaving.Event Input Spokes.Outcome) :=
  [.call (.publishLocalSite (some 1) "home" ⟨none, none, some "key of home", none, none, none,
    none, none, none, none, none, none⟩)] ++ goesThrough 0 4 "site 1" ++
  [.call (registers "north" (gatewayOf "north"))] ++ goesThrough 1 5 "north" ++
  [.call (.syncFromSpokes true)] ++ goesThrough 2 3 "site 2" ++ goesThrough 1 2 "" ++
  [.call (registers "south" noGateway)] ++ goesThrough 3 5 "south" ++
  [.call (.remove true "north")] ++ goesThrough 4 2 ""

theorem agrees_two_spokes :
    List.Forall (fun step : Runs.Step (Interleaving.Event Input Spokes.Outcome)
      (Pool Cluster Call) => Agrees step.after)
      (Runs.steps (mesh true).apply twoSpokes (start .empty)) ∧
    (Runs.run (mesh true).apply twoSpokes (start .empty)).shared.sites.rows.map (fun site =>
      (site.siteId, site.slug, site.gatewayPublicKey)) =
        [(1, some "home", some "key of home"), (2, some "north", some "key of north")] := by
  constructor
  · apply List.forall_iff_forall_mem.mpr
    apply agrees_run
    decide +kernel
  · decide +kernel

/-- A spoke registers with its gateway and is removed; the next one gets its id and, with it, its
row. -/
theorem not_agrees_reused :
    ¬ ∀ events : List (Interleaving.Event Input Spokes.Outcome),
      ∀ step ∈ Runs.steps (mesh true).apply events (start .empty), Agrees step.after := by
  intro always
  have agrees := List.forall_iff_forall_mem.mpr <| always
    ([.call (registers "north" (gatewayOf "north"))] ++ goesThrough 0 7 "north" ++
      [.call (.remove true "north")] ++ goesThrough 1 2 "" ++
      [.call (registers "south" noGateway)] ++ goesThrough 2 5 "south")
  revert agrees
  decide +kernel

end ThetaDirectory.Mesh.Registration
