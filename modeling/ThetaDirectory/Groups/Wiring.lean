import ThetaDirectory.Groups.Simulation

/-!
# What a sequence of provisioning calls builds

Each call creates a list of nodes and then makes a list of nestings.  A run from
a tree that holds only `god_admin` therefore ends in the tree of a lattice whose
nodes are `Named` and whose edges are `Wired` by its calls.
-/

namespace ThetaDirectory.Groups

open Library Library.Delimited

variable {base : GroupBase}

namespace Provision

/-- The nodes a call creates, in its order. -/
def creates : Provision base → List Node
  | site slug _ _ =>
      if slug = "" then []
      else [.superAdmin slug, .aggregate slug .host .admin, .aggregate slug .host .access,
        .aggregate slug .app .admin, .aggregate slug .app .access, .everyone slug]
  | resource entry kind slug _ =>
      [.specific slug kind (.ofResource entry.slug) .access,
        .specific slug kind (.ofResource entry.slug) .admin]

/-- The nestings a call makes, from child to parent, in its order. -/
def nests : Provision base → List (Node × Node)
  | site slug _ _ =>
      if slug = "" then []
      else [(.god, .superAdmin slug),
        (.superAdmin slug, .aggregate slug .host .admin),
        (.aggregate slug .host .admin, .aggregate slug .host .access),
        (.superAdmin slug, .aggregate slug .app .admin),
        (.aggregate slug .app .admin, .aggregate slug .app .access)]
  | resource entry kind slug _ =>
      let own := Node.specific slug kind (.ofResource entry.slug)
      [(own .admin, own .access), (own .admin, .aggregate slug kind .admin),
        (own .access, .aggregate slug kind .access), (.god, own .admin)]

/-- The call on the lattice. -/
def perform (lattice : Lattice base) (call : Provision base) : Lattice base :=
  call.nests.foldl Lattice.nest (call.creates.foldl (Lattice.create call.owner) lattice)

theorem over_of_mem_creates {call : Provision base} {node : Node} (member : node ∈ call.creates) :
    node.Over [call.siteSlug] := by
  cases call with
  | site slug owner resourceId =>
      simp only [creates] at member
      split at member
      · simp at member
      · simp only [List.mem_cons, List.not_mem_nil, or_false] at member
        rcases member with rfl | rfl | rfl | rfl | rfl | rfl <;> exact List.mem_cons_self
  | resource entry kind slug owner =>
      simp only [creates, List.mem_cons, List.not_mem_nil, or_false] at member
      rcases member with rfl | rfl <;> exact List.mem_cons_self

theorem over_of_mem_nests {call : Provision base} {edge : Node × Node}
    (member : edge ∈ call.nests) :
    edge.1.Over [call.siteSlug] ∧ edge.2.Over [call.siteSlug] ∧ edge.1.rank < edge.2.rank := by
  cases call with
  | site slug owner resourceId =>
      simp only [nests] at member
      split at member
      · simp at member
      · simp only [List.mem_cons, List.not_mem_nil, or_false] at member
        rcases member with rfl | rfl | rfl | rfl | rfl <;>
          simp [Node.Over, Node.rank, siteSlug]
  | resource entry kind slug owner =>
      simp only [nests, List.mem_cons, List.not_mem_nil, or_false] at member
      rcases member with rfl | rfl | rfl | rfl <;> simp [Node.Over, Node.rank, siteSlug]

/-- A call creates the groups of its nodes and then makes its nestings. -/
theorem execute_eq (store : GroupStore) (call : Provision base) :
    ∃ next, call.execute store = .ok next ∧
      next.groups =
        call.nests.foldl (fun groups edge => nestGroup base groups edge.1.cn edge.2.cn)
          (call.creates.foldl
            (fun groups node => (ensureGroup base groups node.cn call.owner.dn).1)
            store.groups) := by
  have everyoneCn : ∀ slug, siteEveryoneCns slug = (Node.everyone slug).cn := by
    intro slug
    simp [siteEveryoneCns, Node.cn, field, String.append_assoc]
  have kindsEq : kinds = [Kind.host.text, Kind.app.text] := rfl
  have linkGroups : ∀ resourceId (store : GroupStore) cn isAdmin,
      (GroupStore.link resourceId store cn isAdmin).groups = store.groups := by
    intro resourceId store cn isAdmin
    cases resourceId <;> rfl
  cases call with
  | site slug owner resourceId =>
      by_cases empty : slug = ""
      · exact ⟨store, by simp [execute, ensureSiteGroups, empty], by simp [creates, nests, empty]⟩
      · simp only [execute, ensureSiteGroups, if_neg empty, kindsEq, List.foldlM_cons,
          List.foldlM_nil, aggregateGroupCns_eq, bind, Except.bind, pure, Except.pure,
          Except.ok.injEq, exists_eq_left']
        simp only [creates, nests, if_neg empty, List.foldl_cons, List.foldl_nil,
          GroupStore.nestGroup, GroupStore.ensureGroup, linkGroups, siteSuperAdminCns_eq,
          everyoneCn, Provision.owner]
        rfl
  | resource entry kind slug owner =>
      simp only [execute, provisionResourceGroups, resourceGroupCns_eq, aggregateGroupCns_eq,
        bind, Except.bind, pure, Except.pure, Except.ok.injEq, exists_eq_left']
      rfl

end Provision

/-! ## Runs -/

/-- The site's groups have been created. -/
def EnsuredSite (calls : List (Provision base)) (slug : String) : Prop :=
  slug ≠ "" ∧ ∃ owner resourceId, Provision.site slug owner resourceId ∈ calls

/-- A resource with this slug in its group names has been provisioned. -/
def ProvisionedSlug (calls : List (Provision base)) (site : String) (kind : Kind)
    (slug : Slug) : Prop :=
  ∃ entry owner, Provision.resource entry kind site owner ∈ calls ∧
    Slug.ofResource entry.slug = slug

/-- The resource has been provisioned when its site's groups already existed, so
that its groups are nested into the aggregates. -/
def NestedSlug (calls : List (Provision base)) (site : String) (kind : Kind)
    (slug : Slug) : Prop :=
  ∃ earlier later entry owner,
    calls = earlier ++ Provision.resource entry kind site owner :: later ∧
      Slug.ofResource entry.slug = slug ∧ EnsuredSite earlier site

/-- The nodes a run has created. -/
def Named (calls : List (Provision base)) : Node → Prop
  | .god => True
  | .everyone site | .superAdmin site | .aggregate site _ _ => EnsuredSite calls site
  | .specific site kind slug _ => ProvisionedSlug calls site kind slug

/-- The nestings a run has made, from child to parent. -/
inductive Wired (calls : List (Provision base)) : Node → Node → Prop where
  | godSite {site : String} (ensured : EnsuredSite calls site) :
      Wired calls .god (.superAdmin site)
  | siteAggregate {site : String} {kind : Kind} (ensured : EnsuredSite calls site) :
      Wired calls (.superAdmin site) (.aggregate site kind .admin)
  | aggregateLevels {site : String} {kind : Kind} (ensured : EnsuredSite calls site) :
      Wired calls (.aggregate site kind .admin) (.aggregate site kind .access)
  | resourceLevels {site : String} {kind : Kind} {slug : Slug}
      (provisioned : ProvisionedSlug calls site kind slug) :
      Wired calls (.specific site kind slug .admin) (.specific site kind slug .access)
  | resourceAggregate {site : String} {kind : Kind} {slug : Slug} {level : Level}
      (nested : NestedSlug calls site kind slug) :
      Wired calls (.specific site kind slug level) (.aggregate site kind level)
  | godResource {site : String} {kind : Kind} {slug : Slug}
      (provisioned : ProvisionedSlug calls site kind slug) :
      Wired calls .god (.specific site kind slug .admin)

section Snoc

variable {calls : List (Provision base)}

@[simp] theorem ensuredSite_snoc_site {slug ensured : String} {owner : base.UserDn}
    {resourceId : Option String} :
    EnsuredSite (calls ++ [.site ensured owner resourceId]) slug ↔
      EnsuredSite calls slug ∨ slug ≠ "" ∧ slug = ensured := by
  simp only [EnsuredSite, List.mem_append, List.mem_singleton, Provision.site.injEq,
    exists_or, and_or_left]
  simp

@[simp] theorem ensuredSite_snoc_resource {slug site : String} {entry : ProvisionedResource}
    {kind : Kind} {owner : base.UserDn} :
    EnsuredSite (calls ++ [.resource entry kind site owner]) slug ↔ EnsuredSite calls slug := by
  simp [EnsuredSite]

@[simp] theorem provisionedSlug_snoc_site {site ensured : String} {kind : Kind} {slug : Slug}
    {owner : base.UserDn} {resourceId : Option String} :
    ProvisionedSlug (calls ++ [.site ensured owner resourceId]) site kind slug ↔
      ProvisionedSlug calls site kind slug := by
  simp [ProvisionedSlug]

@[simp] theorem provisionedSlug_snoc_resource {site site' : String} {kind kind' : Kind}
    {slug : Slug} {entry : ProvisionedResource} {owner : base.UserDn} :
    ProvisionedSlug (calls ++ [.resource entry kind' site' owner]) site kind slug ↔
      ProvisionedSlug calls site kind slug ∨
        kind = kind' ∧ site = site' ∧ slug = Slug.ofResource entry.slug := by
  simp only [ProvisionedSlug, List.mem_append, List.mem_singleton, Provision.resource.injEq,
    or_and_right, exists_or]
  refine or_congr_right ?_
  constructor
  · rintro ⟨entry, owner, ⟨rfl, rfl, rfl, rfl⟩, rfl⟩
    exact ⟨rfl, rfl, rfl⟩
  · rintro ⟨rfl, rfl, rfl⟩
    exact ⟨entry, owner, ⟨rfl, rfl, rfl, rfl⟩, rfl⟩

theorem nestedSlug_snoc {call : Provision base} {site : String} {kind : Kind} {slug : Slug} :
    NestedSlug (calls ++ [call]) site kind slug ↔
      NestedSlug calls site kind slug ∨
        ∃ entry owner, call = .resource entry kind site owner ∧
          Slug.ofResource entry.slug = slug ∧ EnsuredSite calls site := by
  constructor
  · rintro ⟨earlier, later, entry, owner, split, slugEq, ensured⟩
    rcases List.eq_nil_or_concat later with rfl | ⟨front, last, rfl⟩
    · obtain ⟨rfl, lastEq⟩ := List.append_inj' split rfl
      exact Or.inr ⟨entry, owner, by simpa using lastEq, slugEq, ensured⟩
    · have regrouped : calls ++ [call] =
          (earlier ++ .resource entry kind site owner :: front) ++ [last] := by
        simpa using split
      obtain ⟨rfl, -⟩ := List.append_inj' regrouped rfl
      exact Or.inl ⟨earlier, front, entry, owner, rfl, slugEq, ensured⟩
  · rintro (⟨earlier, later, entry, owner, rfl, slugEq, ensured⟩ |
      ⟨entry, owner, rfl, slugEq, ensured⟩)
    · exact ⟨earlier, later ++ [call], entry, owner, by simp, slugEq, ensured⟩
    · exact ⟨calls, [], entry, owner, rfl, slugEq, ensured⟩

/-- A call names the nodes it creates. -/
theorem named_snoc {call : Provision base} {node : Node} :
    Named (calls ++ [call]) node ↔ Named calls node ∨ node ∈ call.creates := by
  cases call with
  | site slug owner resourceId =>
      by_cases empty : slug = ""
      · cases node <;> simp [Named, Provision.creates, empty]
      · cases node with
        | aggregate site kind level =>
            cases kind <;> cases level <;> simp [Named, Provision.creates, empty] <;> grind
        | _ => simp [Named, Provision.creates, empty] <;> grind
  | resource entry kind site owner =>
      cases node with
      | specific site' kind' slug level =>
          cases level <;> simp [Named, Provision.creates] <;> grind
      | _ => simp [Named, Provision.creates]

theorem wired_mono {call : Provision base} {child parent : Node} (wired : Wired calls child parent) :
    Wired (calls ++ [call]) child parent := by
  have site : ∀ {slug}, EnsuredSite calls slug → EnsuredSite (calls ++ [call]) slug := by
    intro slug ensured
    cases call <;> simp [ensured]
  have resource : ∀ {site kind slug}, ProvisionedSlug calls site kind slug →
      ProvisionedSlug (calls ++ [call]) site kind slug := by
    intro site kind slug provisioned
    cases call <;> simp [provisioned]
  cases wired with
  | godSite ensured => exact .godSite (site ensured)
  | siteAggregate ensured => exact .siteAggregate (site ensured)
  | aggregateLevels ensured => exact .aggregateLevels (site ensured)
  | resourceLevels provisioned => exact .resourceLevels (resource provisioned)
  | resourceAggregate nested => exact .resourceAggregate (nestedSlug_snoc.mpr (Or.inl nested))
  | godResource provisioned => exact .godResource (resource provisioned)

/-- A call wires those of its nestings whose ends exist by then. -/
theorem wired_snoc {call : Provision base} {child parent : Node} :
    Wired (calls ++ [call]) child parent ↔
      Wired calls child parent ∨
        (child, parent) ∈ call.nests ∧ Named (calls ++ [call]) child ∧
          Named (calls ++ [call]) parent := by
  constructor
  · intro wired
    cases wired with
    | godSite ensured =>
        cases call with
        | site slug owner resourceId =>
            rcases ensuredSite_snoc_site.mp ensured with old | ⟨nonempty, rfl⟩
            · exact Or.inl (.godSite old)
            · exact Or.inr ⟨by simp [Provision.nests, nonempty], trivial, ensured⟩
        | resource entry kind site owner =>
            exact Or.inl (.godSite (ensuredSite_snoc_resource.mp ensured))
    | @siteAggregate site kind ensured =>
        cases call with
        | site slug owner resourceId =>
            rcases ensuredSite_snoc_site.mp ensured with old | ⟨nonempty, rfl⟩
            · exact Or.inl (.siteAggregate old)
            · exact Or.inr ⟨by cases kind <;> simp [Provision.nests, nonempty], ensured, ensured⟩
        | resource entry kind site owner =>
            exact Or.inl (.siteAggregate (ensuredSite_snoc_resource.mp ensured))
    | @aggregateLevels site kind ensured =>
        cases call with
        | site slug owner resourceId =>
            rcases ensuredSite_snoc_site.mp ensured with old | ⟨nonempty, rfl⟩
            · exact Or.inl (.aggregateLevels old)
            · exact Or.inr ⟨by cases kind <;> simp [Provision.nests, nonempty], ensured, ensured⟩
        | resource entry kind site owner =>
            exact Or.inl (.aggregateLevels (ensuredSite_snoc_resource.mp ensured))
    | resourceLevels provisioned =>
        cases call with
        | site slug owner resourceId =>
            exact Or.inl (.resourceLevels (provisionedSlug_snoc_site.mp provisioned))
        | resource entry kind site owner =>
            rcases provisionedSlug_snoc_resource.mp provisioned with old | ⟨rfl, rfl, rfl⟩
            · exact Or.inl (.resourceLevels old)
            · exact Or.inr ⟨by simp [Provision.nests], provisioned, provisioned⟩
    | @resourceAggregate site kind slug level nested =>
        rcases nestedSlug_snoc.mp nested with old | ⟨entry, owner, rfl, rfl, ensured⟩
        · exact Or.inl (.resourceAggregate old)
        · refine Or.inr ⟨by cases level <;> simp [Provision.nests], ?_, ?_⟩
          · exact provisionedSlug_snoc_resource.mpr (Or.inr ⟨rfl, rfl, rfl⟩)
          · exact ensuredSite_snoc_resource.mpr ensured
    | godResource provisioned =>
        cases call with
        | site slug owner resourceId =>
            exact Or.inl (.godResource (provisionedSlug_snoc_site.mp provisioned))
        | resource entry kind site owner =>
            rcases provisionedSlug_snoc_resource.mp provisioned with old | ⟨rfl, rfl, rfl⟩
            · exact Or.inl (.godResource old)
            · exact Or.inr ⟨by simp [Provision.nests], trivial, provisioned⟩
  · rintro (old | ⟨member, childNamed, parentNamed⟩)
    · exact wired_mono old
    · cases call with
      | site slug owner resourceId =>
          simp only [Provision.nests] at member
          split at member
          · simp at member
          · simp only [List.mem_cons, Prod.mk.injEq, List.not_mem_nil, or_false] at member
            rcases member with ⟨rfl, rfl⟩ | ⟨rfl, rfl⟩ | ⟨rfl, rfl⟩ | ⟨rfl, rfl⟩ | ⟨rfl, rfl⟩
            · exact .godSite parentNamed
            · exact .siteAggregate parentNamed
            · exact .aggregateLevels parentNamed
            · exact .siteAggregate parentNamed
            · exact .aggregateLevels parentNamed
      | resource entry kind site owner =>
          have nested : EnsuredSite (calls ++ [.resource entry kind site owner]) site →
              NestedSlug (calls ++ [.resource entry kind site owner]) site kind
                (.ofResource entry.slug) := fun ensured =>
            ⟨calls, [], entry, owner, rfl, rfl, ensuredSite_snoc_resource.mp ensured⟩
          simp only [Provision.nests, List.mem_cons, Prod.mk.injEq, List.not_mem_nil,
            or_false] at member
          rcases member with ⟨rfl, rfl⟩ | ⟨rfl, rfl⟩ | ⟨rfl, rfl⟩ | ⟨rfl, rfl⟩
          · exact .resourceLevels parentNamed
          · exact .resourceAggregate (nested parentNamed)
          · exact .resourceAggregate (nested parentNamed)
          · exact .godResource parentNamed

end Snoc

/-! ## The lattice of a run -/

namespace Lattice

variable {lattice : Lattice base} {calls : List (Provision base)}

theorem held_foldl_create {owner : base.UserDn} {created : List Node} {node : Node} :
    node ∈ (created.foldl (create owner) lattice).held ↔
      node ∈ lattice.held ∨ node ∈ created := by
  induction created generalizing lattice with
  | nil => simp
  | cons head created ih => rw [List.foldl_cons, ih, held_create, List.mem_cons, or_assoc]

theorem edges_foldl_create {owner : base.UserDn} {created : List Node} :
    (created.foldl (create owner) lattice).edges = lattice.edges := by
  induction created generalizing lattice with
  | nil => rfl
  | cons head created ih => rw [List.foldl_cons, ih, edges_create]

theorem held_foldl_nest {nests : List (Node × Node)} :
    (nests.foldl nest lattice).held = lattice.held := by
  induction nests generalizing lattice with
  | nil => rfl
  | cons head nests ih => rw [List.foldl_cons, ih, held_nest]

theorem mem_edges_foldl_nest {nests : List (Node × Node)} {edge : Node × Node} :
    edge ∈ (nests.foldl nest lattice).edges ↔
      edge ∈ lattice.edges ∨
        edge ∈ nests ∧ edge.1 ∈ lattice.held ∧ edge.2 ∈ lattice.held := by
  induction nests generalizing lattice with
  | nil => simp
  | cons head nests ih =>
      rw [List.foldl_cons, ih, mem_edges_nest, held_nest, List.mem_cons]
      constructor
      · rintro ((old | ⟨rfl, both⟩) | ⟨later, both⟩)
        · exact Or.inl old
        · exact Or.inr ⟨Or.inl rfl, both⟩
        · exact Or.inr ⟨Or.inr later, both⟩
      · rintro (old | ⟨rfl | later, both⟩)
        · exact Or.inl (Or.inl old)
        · exact Or.inl (Or.inr ⟨rfl, both⟩)
        · exact Or.inr ⟨later, both⟩

theorem creator_foldl_create {owner : base.UserDn} {created : List Node}
    {entry : Node × base.UserDn} (member : entry ∈ (created.foldl (create owner) lattice).nodes) :
    entry ∈ lattice.nodes ∨ entry.2 = owner := by
  induction created generalizing lattice with
  | nil => exact Or.inl member
  | cons head created ih =>
      rw [List.foldl_cons] at member
      rcases ih member with old | same
      · unfold create at old
        split at old
        · exact Or.inl old
        · rcases List.mem_append.mp old with older | new
          · exact Or.inl older
          · exact Or.inr (by rw [List.mem_singleton.mp new])
      · exact Or.inr same

theorem nodes_foldl_nest {nests : List (Node × Node)} :
    (nests.foldl nest lattice).nodes = lattice.nodes := by
  induction nests generalizing lattice with
  | nil => rfl
  | cons head nests ih =>
      rw [List.foldl_cons, ih]
      unfold nest
      split <;> rfl

/-- The lattice a run has built: its nodes are named, its edges are wired and its
groups were created by the persons who made the calls. -/
structure Built (calls : List (Provision base)) (seed : base.UserDn) (lattice : Lattice base) :
    Prop where
  held : ∀ node, node ∈ lattice.held ↔ Named calls node
  edges : ∀ child parent, (child, parent) ∈ lattice.edges ↔ Wired calls child parent
  creator : ∀ entry ∈ lattice.nodes, entry.2 = seed ∨ ∃ call ∈ calls, entry.2 = call.owner

/-- One call extends the lattice of the run. -/
theorem Built.perform {seed : base.UserDn} (built : lattice.Built calls seed)
    (call : Provision base) : (call.perform lattice).Built (calls ++ [call]) seed := by
  have heldAfter : ∀ node, node ∈ (call.perform lattice).held ↔ Named (calls ++ [call]) node := by
    intro node
    rw [Provision.perform, held_foldl_nest, held_foldl_create, built.held, named_snoc]
  constructor
  · exact heldAfter
  · intro child parent
    rw [Provision.perform, mem_edges_foldl_nest, edges_foldl_create, built.edges, wired_snoc,
      ← heldAfter, ← heldAfter, Provision.perform, held_foldl_nest]
  · intro entry member
    rw [Provision.perform, nodes_foldl_nest] at member
    rcases creator_foldl_create member with old | same
    · rcases built.creator entry old with seeded | ⟨earlier, inCalls, same⟩
      · exact Or.inl seeded
      · exact Or.inr ⟨earlier, List.mem_append_left _ inCalls, same⟩
    · exact Or.inr ⟨call, by simp, same⟩

section Tree

variable {sites : List String}

theorem Valid.foldl_create (valid : lattice.Valid sites) (owner : base.UserDn)
    {created : List Node} (apart : SitesApart sites) (isOver : ∀ node ∈ created, node.Over sites) :
    (created.foldl (Lattice.create owner) lattice).Valid sites ∧
      created.foldl (fun groups node => (ensureGroup base groups node.cn owner.dn).1)
        lattice.toGroups = (created.foldl (Lattice.create owner) lattice).toGroups := by
  induction created generalizing lattice with
  | nil => exact ⟨valid, rfl⟩
  | cons head created ih =>
      have headOver := isOver head List.mem_cons_self
      rw [List.foldl_cons, List.foldl_cons, valid.ensureGroup_toGroups apart headOver]
      exact ih (valid.create headOver) fun node member =>
        isOver node (List.mem_cons_of_mem _ member)

theorem Valid.foldl_nest (valid : lattice.Valid sites) {nests : List (Node × Node)}
    (apart : SitesApart sites) (rising : ∀ edge ∈ nests, edge.1.Over sites ∧ edge.2.Over sites ∧
      edge.1.rank < edge.2.rank) :
    (nests.foldl Lattice.nest lattice).Valid sites ∧
      nests.foldl (fun groups edge => nestGroup base groups edge.1.cn edge.2.cn)
        lattice.toGroups = (nests.foldl Lattice.nest lattice).toGroups := by
  induction nests generalizing lattice with
  | nil => exact ⟨valid, rfl⟩
  | cons head nests ih =>
      obtain ⟨childOver, parentOver, rises⟩ := rising head List.mem_cons_self
      rw [List.foldl_cons, List.foldl_cons,
        valid.nestGroup_toGroups apart childOver parentOver rises]
      exact ih (valid.nest rises) fun edge member => rising edge (List.mem_cons_of_mem _ member)

end Tree

end Lattice

theorem Node.Over.mono {node : Node} {fewer more : List String} (isOver : node.Over fewer)
    (subset : fewer ⊆ more) : node.Over more := by
  cases node with
  | god => trivial
  | everyone site | superAdmin site | aggregate site kind level | specific site kind slug level =>
      exact subset isOver

/-- One call on the tree of a lattice leaves the tree of the extended lattice. -/
theorem Provision.execute_toGroups {sites : List String} (apart : SitesApart sites)
    {lattice : Lattice base} (valid : lattice.Valid sites) {store : GroupStore}
    (tree : store.groups = lattice.toGroups) (call : Provision base)
    (known : call.siteSlug ∈ sites) :
    ∃ next, call.execute store = .ok next ∧ next.groups = (call.perform lattice).toGroups ∧
      (call.perform lattice).Valid sites := by
  have subset : [call.siteSlug] ⊆ sites := by simpa using known
  obtain ⟨next, executed, groupsEq⟩ := call.execute_eq store
  obtain ⟨created, createdTree⟩ := valid.foldl_create call.owner apart
    (fun node member => (over_of_mem_creates member).mono subset)
  obtain ⟨nested, nestedTree⟩ := created.foldl_nest apart fun edge member =>
    let ⟨child, parent, rises⟩ := over_of_mem_nests member
    ⟨child.mono subset, parent.mono subset, rises⟩
  refine ⟨next, executed, ?_, nested⟩
  rw [groupsEq, tree, createdTree, nestedTree, Provision.perform]

/-- A run over sites that stay apart never fails, and its tree is the tree of the
lattice its calls build. -/
theorem provisionAll_toGroups (seed : base.UserDn) {calls : List (Provision base)}
    {sites : List String} (apart : SitesApart sites)
    (known : ∀ call ∈ calls, call.siteSlug ∈ sites) :
    ∃ (store : GroupStore) (lattice : Lattice base),
      provisionAll calls (seededStore base seed) = .ok store ∧
      store.groups = lattice.toGroups ∧ lattice.Valid sites ∧ lattice.Built calls seed := by
  induction calls using List.reverseRecOn with
  | nil =>
      refine ⟨seededStore base seed, ⟨[(.god, seed)], []⟩, rfl, rfl, ?_, ?_⟩
      · constructor <;> simp [Lattice.held, Node.Over]
      · constructor
        · intro node
          cases node <;> simp [Lattice.held, Named, EnsuredSite, ProvisionedSlug]
        · intro child parent
          simp only [List.not_mem_nil, false_iff]
          have noSite : ∀ {slug}, ¬ EnsuredSite ([] : List (Provision base)) slug := by
            simp [EnsuredSite]
          have noResource : ∀ {site kind slug},
              ¬ ProvisionedSlug ([] : List (Provision base)) site kind slug := by
            simp [ProvisionedSlug]
          intro wired
          cases wired with
          | godSite ensured | siteAggregate ensured | aggregateLevels ensured =>
              exact noSite ensured
          | resourceLevels provisioned | godResource provisioned =>
              exact noResource provisioned
          | resourceAggregate nested =>
              obtain ⟨earlier, later, entry, owner, split, -⟩ := nested
              simp at split
        · simp
  | append_singleton calls call ih =>
      obtain ⟨store, lattice, ran, tree, valid, built⟩ := ih fun earlier member =>
        known earlier (List.mem_append_left _ member)
      obtain ⟨next, executed, nextTree, nextValid⟩ :=
        call.execute_toGroups apart valid tree (known call (by simp))
      refine ⟨next, call.perform lattice, ?_, nextTree, nextValid, built.perform call⟩
      simp only [provisionAll, List.foldlM_append, List.foldlM_cons, List.foldlM_nil] at ran ⊢
      rw [ran]
      simp [bind, Except.bind, executed, pure, Except.pure]

end ThetaDirectory.Groups
