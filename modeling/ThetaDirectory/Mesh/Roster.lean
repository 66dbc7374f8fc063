import ThetaDirectory.Library.Interleaving
import ThetaDirectory.Mesh.Sites

/-!
# The roster of a node

`setHub`, `publishLocalSite` and `adoptRoster` of `utils/mesh_roster.js`, each turn from one
await to the next.  A call may find another value of `localSiteId` than the one before it.
-/

namespace ThetaDirectory.Mesh.Roster

open Library Library.Interleaving

/-- How the database answers: whether it carries an operation out, what it says if not, and the
id that a new row is made with. -/
structure Outcome where
  ok : Bool
  error : String
  uuid : String

/-- Where a call stands: the operation that it waits for. -/
inductive Phase where
  /-- `bySiteId` of `setHub` -/
  | finding (siteId : Nat)
  /-- `MeshSite.list` -/
  | listing (target : MeshSite)
  /-- The update that clears a row; the rest is to be cleared after it. -/
  | clearing (target site : MeshSite) (rest : List MeshSite)
  /-- The update that marks the target. -/
  | marking (target : MeshSite)
  /-- `bySiteId` of `publishLocalSite` -/
  | looking (own : Nat) (siteSlug : String) (patch : Publication)
  | updating (existing : MeshSite) (fields : SiteFields)
  /-- `anyHub` -/
  | counting (own : Nat) (fields : SiteFields)
  | creating (own : Nat) (isHub : Bool) (fields : SiteFields)
  /-- `pushSelfToMaster`, which never throws -/
  | pushing
  /-- `bySiteId` of `adoptRoster` for a row; the rest is to be adopted after it. -/
  | adopting (row : MeshSite) (rest : List MeshSite)
  /-- The update or creation for a row. -/
  | writing (row : MeshSite) (existing : Option MeshSite) (rest : List MeshSite)
  | returned
  | thrown (error : String) (status : Option Nat)
  deriving DecidableEq, Repr

def clearNext (target : MeshSite) : List MeshSite → Phase
  | [] => .marking target
  | site :: rest => .clearing target site rest

def adoptNext : List MeshSite → Phase
  | [] => .returned
  | row :: rest => .adopting row rest

def isHubField (isHub : Bool) : SiteFields :=
  ⟨none, none, none, none, none, some isHub, none, none, none, none, none, none⟩

/-- The operation of a phase on the table; `none` if it is not carried out. -/
def Phase.write (outcome : Outcome) (sites : Sites) : Phase → Option Sites
  | .finding _ | .listing _ | .looking _ _ _ | .counting _ _ | .adopting _ _ =>
      if outcome.ok then some sites else none
  | .clearing _ site _ =>
      if outcome.ok then some (updateSite site.id (isHubField false) sites) else none
  | .marking target =>
      if outcome.ok then some (updateSite target.id (isHubField true) sites) else none
  | .updating existing fields =>
      if outcome.ok then some (updateSite existing.id fields sites) else none
  | .creating own isHub fields =>
      if outcome.ok then createSite (fields.published isHub) outcome.uuid own sites else none
  | .writing row (some existing) _ =>
      if outcome.ok then some (updateSite existing.id row.adopted sites) else none
  | .writing row none _ =>
      if outcome.ok then createSite row.adopted outcome.uuid row.siteId sites else none
  | .pushing | .returned | .thrown _ _ => some sites

/-- Where a call goes on when the operation was carried out on this table. -/
def Phase.next (sites : List MeshSite) : Phase → Phase
  | .finding siteId =>
      match bySiteId sites siteId with
      | some target => .listing target
      | none => .thrown ("no site with id " ++ toString siteId) (some 404)
  | .listing target =>
      clearNext target (sites.filter fun site => site.isHub && site.siteId != target.siteId)
  | .clearing target _ rest => clearNext target rest
  | .marking _ => .returned
  | .looking own siteSlug patch =>
      match bySiteId sites own with
      | some existing => .updating existing (patch.fields siteSlug (some existing))
      | none =>
          let fields := patch.fields siteSlug none
          if own = 1 then .counting own fields else .creating own false fields
  | .updating _ _ => .pushing
  | .counting own fields => .creating own (!sites.any MeshSite.isHub) fields
  | .creating _ _ _ => .pushing
  | .pushing => .returned
  | .adopting row rest => .writing row (bySiteId sites row.siteId) rest
  | .writing _ _ rest => adoptNext rest
  | .returned => .returned
  | .thrown error status => .thrown error status

/-- The calls, with what `localSiteId` and the configured slug are when they are made. -/
inductive Input where
  | setHub (siteId : Nat)
  | publishLocalSite (own : Option Nat) (siteSlug : String) (patch : Publication)
  | adoptRoster (own : Option Nat) (meshSites : List MeshSite)

def Input.start : Input → Phase
  | .setHub siteId => .finding siteId
  | .publishLocalSite own siteSlug patch =>
      match own.filter (· ≠ 0) with
      | none => .thrown ("this node has no site id yet — it has not joined a master, and is not " ++
          "one") (some 409)
      | some siteId =>
          if MAX_SITE_ID < siteId then
            .thrown ("site id " ++ toString siteId ++ " is beyond the mesh ceiling of " ++
              toString MAX_SITE_ID ++ "; this cluster has outgrown the addressing") (some 409)
          else .looking siteId siteSlug patch
  | .adoptRoster own meshSites => adoptNext (adoptable own meshSites)

def roster : Protocol Sites Phase Input Outcome where
  call input sites := (sites, input.start)
  turn outcome sites phase :=
    match phase.write outcome sites with
    | some after => (after, phase.next sites.rows)
    | none => (sites, .thrown outcome.error none)

def start (sites : Sites) : Pool Sites Phase := ⟨sites, []⟩

end ThetaDirectory.Mesh.Roster
