import ThetaDirectory.Catalog.SubtypeTemplates
import ThetaDirectory.Discovery.Reconcile

/-!
# The routes that write edges

`POST /edges` and `PUT /resources/:id` of `routes/api_directory_admin.js`, with the
check of a resource against its subtype template.  A request that is refused leaves
the catalogue as it was.
-/

namespace ThetaDirectory.Discovery

open Library Catalog

/-- The status and the text of an error response. -/
structure Refusal where
  status : Nat
  error : String
  deriving DecidableEq, Repr

/-! ## Subtype templates -/

structure PropertySchema where
  type : String
  enum : Option (List String)

/-- A template with the fields that constrain a resource. -/
structure TemplateRow extends SubtypeTemplate where
  validParentTypes : List String
  validParentSubtypes : List String
  required : List String
  properties : JsMap PropertySchema
  additionalProperties : Bool

def platformMetadataKeys : List String :=
  ["subType", "subtype", "tags", "environment", "managed", "ignored", "discovery_sources",
    "sourceId", "last_seen", "hostId", "status", "status_message", "bubbled_environment",
    "bubbled_tags"]

def environments : List String := ["prod", "testing", "dev"]

/-- The value is absent or the empty text. -/
def isBlank : Json → Bool
  | .null => true
  | .str text => text == ""
  | _ => false

def hasType (type : String) (value : Json) : Bool :=
  match type, value with
  | "number", .num _ | "boolean", .bool _ | "string", .str _ | "array", .arr _ => true
  | "number", _ | "boolean", _ | "string", _ | "array", _ => false
  | _, _ => true

/-- The name of a type with its article. -/
def typeName (type : String) : String :=
  if type = "array" then "an array" else "a " ++ type

def checkField (template : TemplateRow) (key : String) (value : Json) : Option String :=
  match template.properties.lookup key with
  | none =>
      if template.additionalProperties || platformMetadataKeys.contains key then none
      else some ("Unknown field '" ++ key ++ "' for subtype '" ++ template.slug ++ "'")
  | some prop =>
      if isBlank value then none
      else if !hasType prop.type value then
        some ("Field '" ++ key ++ "' must be " ++ typeName prop.type)
      else
        match prop.enum with
        | some allowed =>
            if value.str?.any (allowed.contains ·) then none
            else some ("Field '" ++ key ++ "' must be one of " ++ ", ".intercalate allowed)
        | none => none

def validateMetadataAgainstSchema (metadata : Metadata) (template : TemplateRow) : Option String :=
  match template.required.find? fun key => isBlank (metadata.field key) with
  | some key =>
      some ("Required field '" ++ key ++ "' is missing for subtype '" ++ template.slug ++ "'")
  | none => metadata.entries.findSome? fun entry => checkField template entry.1 entry.2

def subTypeText (metadata : Metadata) : Option String :=
  (metadata.textAt "subType").or (metadata.textAt "subtype")

/-- Placement in the hierarchy and the schema; `kind` is the one the request names. -/
def validateSubtype (templates : List TemplateRow) (kind : Option String) (metadata : Metadata)
    (parent : Option Resource) : Option String := do
  let subType ← subTypeText metadata
  let template ← templates.find? fun template => template.slug == subType
  if template.targetKind ≠ "" ∧ some template.targetKind ≠ kind then
    some ("Subtype '" ++ subType ++ "' is not valid for kind '" ++ kind.getD "undefined" ++
      "' (expected " ++ template.targetKind ++ ")")
  else if template.validParentTypes ≠ [] ∧
      !(parent.any fun parent => template.validParentTypes.contains parent.kind) then
    some ("Subtype '" ++ subType ++ "' cannot be created under parent kind '" ++
      (parent.map (·.kind)).getD "none" ++ "' (allowed: " ++
      ", ".intercalate template.validParentTypes ++ ")")
  else
    let parentSubType := parent.bind fun parent => subTypeText parent.metadata
    if template.validParentSubtypes ≠ [] ∧
        !(parentSubType.any (template.validParentSubtypes.contains ·)) then
      some ("Subtype '" ++ subType ++ "' cannot be created under a '" ++
        parentSubType.getD "none" ++ "' parent (allowed: " ++
        ", ".intercalate template.validParentSubtypes ++ ")")
    else if (metadata.textAt "environment").any fun environment =>
        !environments.contains environment then
      some ("environment must be one of " ++ ", ".intercalate environments)
    else validateMetadataAgainstSchema metadata template

/-! ## `PUT /resources/:id` -/

/-- The fields of the body.  A parent that is given but blank takes the parent away. -/
structure ResourceBody where
  kind : Option String := none
  name : Option String := none
  slug : Option String := none
  description : Option String := none
  hostId : Option String := none
  metadata : Option Metadata := none

def oauthSubtypes : List String := ["oauth", "oidc-client"]

def isOAuthClient (row : Resource) : Bool :=
  row.kind == "service" && oauthSubtypes.contains row.subType

/-- The parent the placement is checked against. -/
def parentToCheck (store : Store) (id effectiveKind : String) (hostId : Option String) :
    Except Refusal (Option Resource) :=
  match truthy hostId with
  | some hostId => .ok (store.find hostId)
  | none =>
      if effectiveKind = "site" ∨ effectiveKind = "Site" then .ok none
      else
        let existing := store.edges.filter fun edge => edge.childId == id
        match (existing.find? fun edge => edge.relation == "hosts").or existing.head? with
        | some edge => .ok (store.find edge.parentId)
        | none => .error ⟨400, "Only Site resources can be top-level. All other resource types must have a parent resource."⟩

/-- The update of the row.  An OAuth client keeps its kind, slug and subtype. -/
def updateRow (body : ResourceBody) (metadata : Option Metadata) (row : Resource) : Resource :=
  let row := { row with
    name := body.name.getD row.name
    description := body.description.or row.description }
  if isOAuthClient row then row
  else { row with
    kind := body.kind.getD row.kind
    slug := body.slug.getD row.slug
    metadata := metadata.getD row.metadata }

/-- The edges after a resource is moved under a new parent, or under none. -/
def reparent (env : Env) (id : String) (hostId : Option String) (edges : List EdgeRow) :
    List EdgeRow :=
  let kept := edges.filter fun edge => !(edge.childId == id && edge.relation == "hosts")
  match truthy hostId with
  | some hostId => kept ++ [⟨env.uuid 0, hostId, id, "hosts", none⟩]
  | none => kept

def putResource (env : Env) (templates : List TemplateRow) (id : String) (body : ResourceBody)
    (store : Store) : Except Refusal Store := do
  let some stored := store.find id | throw ⟨404, "Not found"⟩
  let effectiveKind := (truthy body.kind).getD stored.kind
  let parent ← parentToCheck store id effectiveKind body.hostId
  let metadata := body.metadata.map stored.metadata.spread
  if let some error := validateSubtype templates body.kind (metadata.getD stored.metadata) parent
    then throw ⟨400, error⟩
  let updated := updateRow body metadata stored
  if store.resources.any fun row => row.id ≠ id && row.slug == updated.slug then
    throw ⟨500, "SequelizeUniqueConstraintError"⟩
  let store := store.update id (updateRow body metadata)
  if (updated.kind = "host" ∨ updated.kind = "service") ∧ body.hostId.isSome then
    return { store with edges := reparent env id body.hostId store.edges }
  else return store

/-! ## `POST /edges` -/

structure EdgeBody where
  parentId : Option String
  childId : Option String
  relation : Option String

def postEdge (env : Env) (body : EdgeBody) (store : Store) : Except Refusal Store :=
  match truthy body.parentId, truthy body.childId with
  | some parentId, some childId =>
      if parentId = childId then .error ⟨400, "a resource cannot be its own parent"⟩
      else if (store.find parentId).isNone then .error ⟨400, "parentId does not exist"⟩
      else if (store.find childId).isNone then .error ⟨400, "childId does not exist"⟩
      else if isDescendant parentId childId store.edges then
        .error ⟨400, "that edge would create a cycle"⟩
      else .ok { store with edges := store.edges ++ [⟨env.uuid 0, parentId, childId,
        (truthy body.relation).getD "hosts", none⟩] }
  | _, _ => .error ⟨400, "parentId and childId are required"⟩

end ThetaDirectory.Discovery
