import ThetaDirectory.Access.CatalogueOrder
import ThetaDirectory.Access.Grants
import ThetaDirectory.Discovery.Adoption
import ThetaDirectory.Library.DepthFirst

/-!
# The site of a host

Groups of a host are named by the site `Resource.findAncestorSiteSlug` finds, which tries every
parent; `accessibleResources` checks them by the site it finds along first parents, up to 31 of
them.
-/

namespace ThetaDirectory.Access

open Catalog Library Library.DepthFirst

/-- What the tables guarantee: primary keys, required ends of edges, and the slug every create
fills in. -/
structure Stored (store : Discovery.Store) : Prop where
  ids : (store.resources.map (·.id)).Nodup
  named : ∀ row ∈ store.resources, row.id ≠ "" ∧ row.slug ≠ ""
  parents : ∀ edge ∈ store.edges, edge.parentId ≠ ""

/-- The parents of a resource in the order of the edges. -/
def parentsOf (edges : List Discovery.EdgeRow) (id : String) : List String :=
  (edges.filter fun edge => edge.childId == id).map (·.parentId)

/-- The slug of a row that is a site. -/
def siteAt (store : Discovery.Store) (id : String) : Option String :=
  ((store.find id).filter fun row => row.kind == "site").map (·.slug)

/-- The first parent of a row, then its first parent, and so on, as far as they are stored. -/
def firstAncestor (all : List Resource) (edges : List ResourceEdge) : Nat → Resource → Option Resource
  | 0, row => some row
  | hops + 1, row => ((parentOf edges row.id).bind (byId all)).bind (firstAncestor all edges hops)

/-- Some site is above the resource. -/
def UnderSite (store : Discovery.Store) (id : String) : Prop :=
  ∃ site ∈ store.resources, site.kind = "site" ∧
    Relation.TransGen (fun child parent => Discovery.IsChild store.edges parent child) id site.id

/-- First parents reach a site in fewer hops. -/
def ReachesSite (all : List Resource) (edges : List ResourceEdge) (hops : Nat) (row : Resource) :
    Prop :=
  ∃ above < hops, ∃ site, firstAncestor all edges above row = some site ∧ site.kind = "site"

variable {store : Discovery.Store}

/-! ## Rows -/

theorem find_eq_some_iff (distinct : (store.resources.map (·.id)).Nodup) {id : String} {row : Resource} :
    store.find id = some row ↔ row ∈ store.resources ∧ row.id = id :=
  Keyed.find?_eq_some_iff distinct

theorem siteAt_row (stored : Stored store) {row : Resource} (member : row ∈ store.resources) :
    siteAt store row.id = if row.kind = "site" then some row.slug else none := by
  rw [siteAt, (find_eq_some_iff stored.ids).mpr ⟨member, rfl⟩, Option.filter_some]
  split <;> simp_all

theorem siteAt_eq_some (stored : Stored store) {id slug : String} (isSite : siteAt store id = some slug) :
    ∃ site ∈ store.resources, site.kind = "site" ∧ site.id = id ∧ site.slug = slug := by
  obtain ⟨site, found, sameSlug⟩ := Option.map_eq_some_iff.mp isSite
  obtain ⟨found, isKind⟩ := Option.filter_eq_some_iff.mp found
  obtain ⟨member, sameId⟩ := (find_eq_some_iff stored.ids).mp found
  exact ⟨site, member, by simpa using isKind, sameId, sameSlug⟩

theorem parentOf_edgesOf (id : String) :
    parentOf (edgesOf store) id = (parentsOf store.edges id).head? := by
  have sameChild : (fun edge : Discovery.EdgeRow => some edge.childId == some id) =
      fun edge => edge.childId == id := by
    funext edge
    exact Option.some_beq_some
  unfold parentOf edgesOf parentsOf
  rw [List.find?_map, Option.bind_map, List.head?_map, List.head?_filter, ← sameChild,
    Option.map_eq_bind]
  rfl

theorem mem_parentsOf {edges : List Discovery.EdgeRow} {child parent : String} :
    parent ∈ parentsOf edges child ↔ Discovery.IsChild edges parent child := by
  unfold parentsOf Discovery.IsChild
  simp only [List.mem_map, List.mem_filter, beq_iff_eq]
  exact exists_congr fun edge => ⟨fun ⟨⟨member, child⟩, parent⟩ => ⟨member, parent, child⟩,
    fun ⟨member, parent, child⟩ => ⟨⟨member, child⟩, parent⟩⟩

theorem parentsOf_source {edges : List Discovery.EdgeRow} (id : String)
    (parents : parentsOf edges id ≠ []) : id ∈ edges.map (·.childId) := by
  obtain ⟨parent, member⟩ := List.exists_mem_of_ne_nil _ parents
  obtain ⟨edge, inEdges, -, child⟩ := mem_parentsOf.mp member
  exact List.mem_map.mpr ⟨edge, inEdges, child⟩

/-! ## The search through all parents -/

/-- The search at one parent. -/
def askParent (store : Discovery.Store) (depth : Nat) (state : Option String × List String)
    (parent : String) : Option String × List String :=
  if state.1.isSome then state
  else
    match siteAt store parent with
    | some slug => (some slug, state.2)
    | none =>
        let upstream := Discovery.findAncestorSiteSlug store depth parent state.2
        (truthy upstream.1, upstream.2)

theorem findAncestorSiteSlug_fresh {depth : Nat} {id : String} {seen : List String}
    (nonempty : id ≠ "") (fresh : id ∉ seen) :
    Discovery.findAncestorSiteSlug store (depth + 1) id seen =
      (parentsOf store.edges id).foldl (askParent store depth) (none, id :: seen) := by
  have neither : ¬ (id = "" ∨ id ∈ seen) := fun either => either.elim nonempty fresh
  rw [Discovery.findAncestorSiteSlug, if_neg neither, parentsOf, List.foldl_map]
  congr 1
  funext state edge
  unfold askParent siteAt
  cases (store.find edge.parentId).filter fun row => row.kind == "site" <;> rfl

theorem foldl_askParent_some {depth : Nat} {parents seen : List String} {slug : String} :
    parents.foldl (askParent store depth) (some slug, seen) = (some slug, seen) := by
  induction parents with
  | nil => rfl
  | cons parent parents ih => exact ih

/-- The results are the same, and so is what has been seen where neither found anything. -/
structure Agree (result other : Option String × List String) : Prop where
  found : result.1 = other.1
  seen : result.1 = none → result.2 = other.2

/-- The search through all parents gives the first site in depth-first order. -/
theorem findAncestorSiteSlug_agree (stored : Stored store) {depth : Nat} {id : String}
    {seen : List String} (enough : unseen (store.edges.map (·.childId)) seen < depth)
    (nonempty : id ≠ "") (noSite : siteAt store id = none)
    (noSites : ∀ other ∈ seen, siteAt store other = none) :
    Agree (Discovery.findAncestorSiteSlug store depth id seen)
      (visit (parentsOf store.edges) (siteAt store) (depth + 1) id seen) := by
  induction depth generalizing id seen with
  | zero => exact absurd enough (Nat.not_lt_zero _)
  | succ depth ih =>
      by_cases old : id ∈ seen
      · rw [visit_seen old, Discovery.findAncestorSiteSlug, if_pos (Or.inr old)]
        exact ⟨rfl, fun _ => rfl⟩
      · have along (parents : List String) (children : parents ⊆ parentsOf store.edges id)
            (seen' : List String) (subset : id :: seen ⊆ seen')
            (noSites : ∀ other ∈ seen', siteAt store other = none) :
            Agree (parents.foldl (askParent store depth) (none, seen'))
              (visitAll (parentsOf store.edges) (siteAt store) (depth + 1) parents (none, seen')) := by
          induction parents generalizing seen' with
          | nil => exact ⟨rfl, fun _ => rfl⟩
          | cons parent parents later =>
              obtain ⟨isParent, others⟩ := List.cons_subset.mp children
              have shown : visitAll (parentsOf store.edges) (siteAt store) (depth + 1)
                  (parent :: parents) (none, seen') =
                    visitAll (parentsOf store.edges) (siteAt store) (depth + 1) parents
                      (visit (parentsOf store.edges) (siteAt store) (depth + 1) parent seen') := rfl
              rw [List.foldl_cons, shown]
              cases isSite : siteAt store parent with
              | some slug =>
                  have fresh : parent ∉ seen' := by
                    intro old
                    cases isSite.symm.trans (noSites parent old)
                  have asked : askParent store depth (none, seen') parent = (some slug, seen') := by
                    simp [askParent, isSite]
                  rw [asked, foldl_askParent_some, visit_answer fresh isSite, visitAll_some]
                  exact ⟨rfl, fun none => nomatch none⟩
              | none =>
                  have inKeys := parentsOf_source id (List.ne_nil_of_mem isParent)
                  have lower : unseen (store.edges.map (·.childId)) seen' < depth := by
                    have less := unseen_cons_lt inKeys old
                    have mono := unseen_mono (store.edges.map (·.childId)) subset
                    omega
                  obtain ⟨edge, inEdges, rfl, -⟩ := mem_parentsOf.mp isParent
                  have asked : askParent store depth (none, seen') edge.parentId =
                      (truthy (Discovery.findAncestorSiteSlug store depth edge.parentId seen').1,
                        (Discovery.findAncestorSiteSlug store depth edge.parentId seen').2) := by
                    simp [askParent, isSite]
                  obtain ⟨found, sameSeen⟩ :=
                    ih lower (stored.parents edge inEdges) isSite noSites
                  rw [asked, found]
                  cases visited : visit (parentsOf store.edges) (siteAt store) (depth + 1)
                      edge.parentId seen' with
                  | mk result seen'' =>
                      cases result with
                      | some slug =>
                          obtain ⟨other, isSite⟩ := visit_some (congrArg Prod.fst visited)
                          obtain ⟨site, member, -, -, rfl⟩ := siteAt_eq_some stored isSite
                          have kept : truthy (some site.slug) = some site.slug :=
                            if_pos (decide_eq_true (stored.named site member).2)
                          rw [kept, foldl_askParent_some, visitAll_some]
                          exact ⟨rfl, fun none => nomatch none⟩
                      | none =>
                          obtain ⟨suffix, silent⟩ := visit_none (congrArg Prod.fst visited)
                          rw [visited] at found sameSeen suffix silent
                          rw [sameSeen found]
                          apply later others _ (List.Subset.trans subset suffix.subset)
                          intro other member
                          exact (silent other member).elim (noSites other) fun none => none
        rw [findAncestorSiteSlug_fresh nonempty old, visit_onward old noSite]
        exact along _ (List.Subset.refl _) _ (List.Subset.refl _)
          (List.forall_mem_cons.mpr ⟨noSite, noSites⟩)

section Host

variable {host : Resource}

theorem siteSlugOf_eq_order (stored : Stored store) (member : host ∈ store.resources)
    (isHost : host.kind = "host") : Discovery.siteSlugOf store host.id =
      (order (parentsOf store.edges) (store.edges.length + 3) host.id).findSome? (siteAt store) := by
  have noSite : siteAt store host.id = none := by
    rw [siteAt_row stored member, isHost]
    exact if_neg (by decide)
  have enough : unseen (store.edges.map (·.childId)) [] < store.edges.length + 2 := by
    have most := unseen_nil_le (store.edges.map (·.childId))
    rw [List.length_map] at most
    omega
  have agree := findAncestorSiteSlug_agree stored enough (stored.named host member).1 noSite
    (List.forall_mem_nil _)
  rw [Discovery.siteSlugOf, agree.found, visit_nil]

theorem mem_order_parents {depth : Nat} {id other : String} (enough : store.edges.length < depth) :
    other ∈ order (parentsOf store.edges) depth id ↔
      Relation.ReflTransGen (fun child parent => Discovery.IsChild store.edges parent child)
        id other := by
  have enough : (store.edges.map (·.childId)).length < depth := by rwa [List.length_map]
  have step : Step (parentsOf store.edges) =
      fun child parent => Discovery.IsChild store.edges parent child := by
    funext child parent
    exact propext mem_parentsOf
  rw [mem_order_iff parentsOf_source enough, step]

theorem isSome_siteSlugOf_iff (stored : Stored store) (member : host ∈ store.resources)
    (isHost : host.kind = "host") :
    (Discovery.siteSlugOf store host.id).isSome = true ↔ UnderSite store host.id := by
  rw [siteSlugOf_eq_order stored member isHost, List.findSome?_isSome_iff]
  constructor
  · intro found
    obtain ⟨other, inOrder, isSite⟩ := found
    obtain ⟨slug, isSite⟩ := Option.isSome_iff_exists.mp isSite
    obtain ⟨site, inTable, isKind, rfl, -⟩ := siteAt_eq_some stored isSite
    refine ⟨site, inTable, isKind, ?_⟩
    have path := (mem_order_parents (by omega)).mp inOrder
    refine (Relation.reflTransGen_iff_eq_or_transGen.mp path).resolve_left fun same => ?_
    rw [same, siteAt_row stored member, isHost] at isSite
    cases isSite
  · intro under
    obtain ⟨site, inTable, isKind, path⟩ := under
    refine ⟨site.id, (mem_order_parents (by omega)).mpr path.to_reflTransGen, ?_⟩
    rw [siteAt_row stored inTable, if_pos isKind]
    rfl

/-! ## The walk along first parents -/

theorem isSome_walkToSite_iff {all : List Resource} {edges : List ResourceEdge} {hops : Nat}
    {row : Resource} : (walkToSite all edges hops (some row)).isSome = true ↔
      ReachesSite all edges hops row := by
  induction hops generalizing row with
  | zero =>
      constructor
      · intro found
        cases found
      · intro reaches
        obtain ⟨_, less, _⟩ := reaches
        exact absurd less (Nat.not_lt_zero _)
  | succ hops ih =>
      rw [walkToSite]
      by_cases isSite : row.kind = "site"
      · rw [if_pos isSite]
        exact ⟨fun _ => ⟨0, Nat.zero_lt_succ _, row, rfl, isSite⟩, fun _ => rfl⟩
      · rw [if_neg isSite]
        have onward (above : Nat) : firstAncestor all edges (above + 1) row =
          ((parentOf edges row.id).bind (byId all)).bind (firstAncestor all edges above) := rfl
        have reaches : ReachesSite all edges (hops + 1) row ↔ ∃ above < hops, ∃ site,
            firstAncestor all edges (above + 1) row = some site ∧ site.kind = "site" := by
          constructor
          · intro reaches
            obtain ⟨above, less, site, found, isKind⟩ := reaches
            cases above with
            | zero =>
                cases found
                exact absurd isKind isSite
            | succ above => exact ⟨above, Nat.lt_of_succ_lt_succ less, site, found, isKind⟩
          · intro reaches
            obtain ⟨above, less, found⟩ := reaches
            exact ⟨above + 1, Nat.succ_lt_succ less, found⟩
        rw [reaches]
        simp only [onward]
        cases (parentOf edges row.id).bind (byId all) with
        | none =>
            constructor
            · intro found
              cases hops <;> cases found
            · intro found
              obtain ⟨_, _, _, found, _⟩ := found
              cases found
        | some parent => exact ih

/-- First parents that lead to a site lead to its slug. -/
theorem leads_of_walkToSite (stored : Stored store) {hops : Nat} {row : Resource} {slug : String}
    (member : row ∈ store.resources)
    (found : walkToSite store.resources (edgesOf store) hops (some row) = some slug) :
    ∃ rest, Leads (parentsOf store.edges) (siteAt store) row.id rest slug := by
  induction hops generalizing row with
  | zero => cases found
  | succ hops ih =>
      have answer := siteAt_row stored member
      rw [walkToSite] at found
      by_cases isSite : row.kind = "site"
      · rw [if_pos isSite] at found answer
        exact ⟨[], .here (answer.trans found)⟩
      · rw [if_neg isSite] at found answer
        cases next : (parentOf (edgesOf store) row.id).bind (byId store.resources) with
        | none =>
            rw [next] at found
            cases hops <;> cases found
        | some parent =>
            rw [next] at found
            obtain ⟨id, isFirst, isRow⟩ := Option.bind_eq_some_iff.mp next
            obtain ⟨inTable, rfl⟩ := (byId_eq_some_iff stored.ids).mp isRow
            obtain ⟨rest, leads⟩ := ih inTable found
            rw [parentOf_edgesOf] at isFirst
            exact ⟨parent.id :: rest, .onward answer isFirst leads⟩

/-- Where first parents lead to a site, the search through all parents finds the same one. -/
theorem siteSlugOf_eq_of_some (stored : Stored store) (member : host ∈ store.resources)
    (isHost : host.kind = "host") {slug : String}
    (found : siteSlugOf store.resources (edgesOf store) host = some slug) :
    Discovery.siteSlugOf store host.id = some slug := by
  obtain ⟨rest, leads⟩ := leads_of_walkToSite stored member found
  rw [siteSlugOf_eq_order stored member isHost]
  apply leads.findSome_order parentsOf_source
  rw [List.length_map]
  omega

/-! ## The same site -/

/-- The groups of a host are checked at the site they are named by exactly if the host is under no
site or its first parents reach one within 31 hops. -/
theorem siteSlugOf_eq_iff (stored : Stored store) (member : host ∈ store.resources)
    (isHost : host.kind = "host") :
    siteSlugOf store.resources (edgesOf store) host = Discovery.siteSlugOf store host.id ↔
      (UnderSite store host.id → ReachesSite store.resources (edgesOf store) 32 host) := by
  have under := isSome_siteSlugOf_iff stored member isHost
  have reaches := @isSome_walkToSite_iff store.resources (edgesOf store) 32 host
  constructor
  · intro same above
    apply reaches.mp
    have found := under.mpr above
    rwa [← same] at found
  · intro condition
    cases found : siteSlugOf store.resources (edgesOf store) host with
    | some slug => exact (siteSlugOf_eq_of_some stored member isHost found).symm
    | none =>
        cases above : Discovery.siteSlugOf store host.id with
        | none => rfl
        | some slug =>
            have isSome := reaches.mpr (condition (under.mp (Option.isSome_of_mem above)))
            have nothing : walkToSite store.resources (edgesOf store) 32 (some host) = none := found
            rw [nothing] at isSome
            cases isSome

end Host

/-- A site, a cluster under no site, and a host on both. -/
def clusterHost : Discovery.Store where
  resources := [⟨"s1", "site", "Home", "home", none, none, ∅⟩,
    ⟨"c1", "cluster", "Lab", "lab", none, none, ∅⟩, ⟨"h1", "host", "Nas", "nas", none, none, ∅⟩]
  edges := [⟨"e1", "c1", "h1", "hosts", none⟩, ⟨"e2", "s1", "h1", "hosts", none⟩]
  groups := []

theorem stored_clusterHost : Stored clusterHost := ⟨by decide, by decide, by decide⟩

theorem siteSlugOf_eq_iff_clusterHost :
    siteSlugOf clusterHost.resources (edgesOf clusterHost)
        ⟨"h1", "host", "Nas", "nas", none, none, ∅⟩ = Discovery.siteSlugOf clusterHost "h1" ↔
      (UnderSite clusterHost "h1" → ReachesSite clusterHost.resources (edgesOf clusterHost) 32
        ⟨"h1", "host", "Nas", "nas", none, none, ∅⟩) :=
  siteSlugOf_eq_iff stored_clusterHost (by simp [clusterHost]) rfl

/-- The groups of this host are named by the site on its second edge, and checked at none. -/
theorem siteSlugOf_clusterHost : Stored clusterHost ∧
    siteSlugOf clusterHost.resources (edgesOf clusterHost)
      ⟨"h1", "host", "Nas", "nas", none, none, ∅⟩ = none ∧
    Discovery.siteSlugOf clusterHost "h1" = some "home" :=
  ⟨stored_clusterHost, by decide, by decide⟩

end ThetaDirectory.Access
