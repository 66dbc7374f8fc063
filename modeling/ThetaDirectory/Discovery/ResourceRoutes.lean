import ThetaDirectory.Discovery.Adoption
import ThetaDirectory.Discovery.EdgeRoutes

/-!
# The routes that create, delete and merge resources

`POST /resources`, `DELETE /resources/:id` and `POST /discovered/merge` of
`routes/api_directory_admin.js`.  A request that is refused leaves the catalogue as it
was.
-/

namespace ThetaDirectory.Discovery

open Library Catalog

/-! ## `POST /resources` -/

/-- The body of a create request. -/
structure CreateBody extends ResourceBody where
  id : Option String := none
  parentSlug : Option String := none
  createdBy : Option String := none

/-- The parent a create request names, by id or by slug. -/
def hostIdOf (body : CreateBody) (store : Store) : Option String :=
  (truthy body.hostId).or ((truthy body.parentSlug).bind fun slug =>
    (store.resources.find? fun row => row.slug == slug).map (·.id))

/-- Does the request ask for an OAuth client? -/
def asksOAuthClient (body : CreateBody) : Bool :=
  let subType := (body.metadata.getD ∅).field "subType"
  body.kind == some "service" &&
    oauthSubtypes.contains (toLowerCase (if subType.isTruthy then subType.text else ""))

/-- The row `OAuthClient.add` creates. -/
def oauthClient (env : Env) (body : CreateBody) (name : String) (store : Store) : NewResource :=
  let metadata := body.metadata.getD ∅
  let clean := String.ofList (trimDashes (fillRuns '-' false (toLowerCase name).toList))
  let slug := if clean = "" then "oauth-client" else clean
  let taken := store.resources.any fun row => row.slug == slug
  { id := env.uuid 0
    kind := "service"
    name
    slug := if taken then slug ++ "-" ++ String.ofList ((env.uuid 0).toList.take 8) else slug
    metadata := metadata.insert "subType" (.str (toLowerCase (metadata.field "subType").text)) }

/-- Create a row with its description and author. -/
def addResource (env : Env) (data : NewResource) (description createdBy : Option String)
    (store : Store) : Except Refusal (Resource × Store) :=
  match store.create (env.hex 0) data with
  | .error _ => .error ⟨400, "A resource with this slug already exists."⟩
  | .ok (row, store) =>
      let row := { row with description, createdBy }
      .ok (row, store.update row.id fun _ => row)

/-- Create the row of a request, or change the one that has its slug. -/
def createOrMerge (env : Env) (uid : String) (body : CreateBody) (store : Store) :
    Except Refusal (Resource × Store) :=
  if asksOAuthClient body then
    match body.name with
    | none => .error ⟨500, "Cannot read properties of undefined (reading 'toLowerCase')"⟩
    | some name =>
        addResource env (oauthClient env body name store) (some (body.description.getD "")) none
          store
  else
    match store.resources.find? fun row => some row.slug == body.slug with
    | some prev =>
        let row := { prev with
          name := (truthy body.name).getD prev.name
          metadata := prev.metadata.spread (body.metadata.getD ∅) }
        .ok (row, store.update prev.id fun _ => row)
    | none =>
        addResource env ⟨(truthy body.id).getD (env.uuid 0), body.kind.getD "", body.name.getD "",
          body.slug.getD "", body.metadata.getD ∅⟩ body.description
          (some ((truthy body.createdBy).getD uid)) store

def postResource (env : Env) (templates : List TemplateRow) (uid : String) (body : CreateBody)
    (store : Store) : Except Refusal Store := do
  let hostId := hostIdOf body store
  -- A host or service without a parent is refused here; the checks after it never fire.
  if body.kind ≠ some "site" ∧ body.kind ≠ some "Site" ∧ hostId = none then
    throw ⟨400, "Only Site resources can be top-level. All other resource types must have a parent resource."⟩
  if let some error := validateSubtype templates body.kind (body.metadata.getD ∅)
      (hostId.bind store.find) then
    throw ⟨400, error⟩
  let (row, store) ← createOrMerge env uid body store
  match hostId with
  | some hostId =>
      if (row.kind = "host" ∨ row.kind = "service") ∧
          !(store.edges.any fun edge => edge.parentId == hostId && edge.childId == row.id) then
        return { store with edges := store.edges ++ [⟨env.uuid 1, hostId, row.id, "hosts", none⟩] }
      else return store
  | none => return store

/-! ## `DELETE /resources/:id` -/

def deleteResource (id : String) (store : Store) : Except Refusal Store :=
  match store.find id with
  | none => .error ⟨404, "Not found"⟩
  | some row => .ok (store.purge row.id)

/-! ## `POST /discovered/merge` -/

/-- The target's metadata with what the discovered resource knows. -/
def mergeDiscoveredMetadata (target discovered : Metadata) : Metadata :=
  let merged := withSources target (sourcesOf target ++ sourcesOf discovered).eraseDups
  let merged :=
    if (discovered.field "interfaces").isTruthy then
      let macs := (interfacesOf target).filterMap (·.textAt "mac")
      merged.insert "interfaces" (.arr (interfacesOf target ++
        (interfacesOf discovered).filter fun interface =>
          !(interface.textAt "mac").any fun mac => macs.contains mac))
    else merged
  ["os", "kernel"].foldl (fun metadata key =>
    if (discovered.field key).isTruthy && !(target.field key).isTruthy then
      metadata.insert key (discovered.field key)
    else metadata) merged

/-- Merge a discovered resource into another one.  Its row is deleted; nothing else is. -/
def mergeDiscovered (discoveredId targetId : Option String) (store : Store) :
    Except Refusal Store :=
  match truthy discoveredId, truthy targetId with
  | some discoveredId, some targetId =>
      match store.find discoveredId, store.find targetId with
      | some discovered, some target =>
          let store := store.update target.id fun row =>
            { row with metadata := mergeDiscoveredMetadata target.metadata discovered.metadata }
          .ok { store with resources := store.resources.filter fun row => row.id ≠ discovered.id }
      | _, _ => .error ⟨404, "Discovered or Target resource not found"⟩
  | _, _ => .error ⟨400, "discoveredId and targetId are required"⟩

end ThetaDirectory.Discovery
