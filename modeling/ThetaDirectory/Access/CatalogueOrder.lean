import ThetaDirectory.Access.Projection
import ThetaDirectory.Library.Keyed

/-!
# The order of the catalogue

Which resources are admitted does not depend on the order of the rows, but the second pass of
`accessibleResources` adds to the set it reads while it goes through the rows once: a service that
follows a service is added only if it stands behind it.
-/

namespace ThetaDirectory.Access

open Catalog Library

variable {cache : TemplateCache} {all other : List Resource} {edges : List ResourceEdge}
  {query : AccessQuery}

/-! ## Admission -/

/-- Where ids are distinct, an id finds its row. -/
theorem byId_eq_some_iff (distinct : (all.map (·.id)).Nodup) {id : String} {resource : Resource} :
    byId all id = some resource ↔ resource ∈ all ∧ resource.id = id := by
  have reversed : (all.reverse.map (·.id)).Nodup := by
    rw [List.map_reverse]
    exact List.nodup_reverse.mpr distinct
  unfold byId
  rw [Keyed.find?_eq_some_iff reversed, List.mem_reverse]

theorem byId_perm (distinct : (all.map (·.id)).Nodup) (perm : other.Perm all) :
    byId other = byId all := by
  have distinctOther : (other.map (·.id)).Nodup := (perm.map _).nodup_iff.mpr distinct
  funext id
  apply Option.ext
  intro resource
  rw [byId_eq_some_iff distinct, byId_eq_some_iff distinctOther, perm.mem_iff]

theorem siteSlugOf_perm (distinct : (all.map (·.id)).Nodup) (perm : other.Perm all) :
    siteSlugOf other edges = siteSlugOf all edges := by
  have walks (hops : Nat) (current : Option Resource) :
      walkToSite other edges hops current = walkToSite all edges hops current := by
    induction hops generalizing current with
    | zero => rfl
    | succ hops ih =>
        cases current with
        | none => rfl
        | some current => rw [walkToSite, walkToSite, ih, byId_perm distinct perm]
  funext resource
  exact walks 32 (some resource)

/-- The order of the rows does not matter for who is admitted. -/
theorem admitted_perm (distinct : (all.map (·.id)).Nodup) (perm : other.Perm all)
    {resource : Resource} :
    Admitted cache other edges query resource ↔ Admitted cache all edges query resource := by
  have stored (holds : Resource → Prop) : (∃ service ∈ other, holds service) ↔
      ∃ service ∈ all, holds service :=
    exists_congr fun service => and_congr_left fun _ => perm.mem_iff
  unfold Admitted AgentHost
  rw [siteSlugOf_perm distinct perm, stored]

/-! ## The second pass -/

/-- The row is admitted or follows an admitted one. -/
def InReach (cache : TemplateCache) (all : List Resource) (edges : List ResourceEdge)
    (query : AccessQuery) (resource : Resource) : Prop :=
  Admitted cache all edges query resource ∨
    ∃ host ∈ all, Admitted cache all edges query host ∧ Follows cache edges resource host.id

/-- A row that follows a row that is not admitted itself does not need it to be accessible. -/
def OneHop (cache : TemplateCache) (all : List Resource) (edges : List ResourceEdge)
    (query : AccessQuery) : Prop :=
  ∀ resource ∈ all, ∀ host ∈ all, Follows cache edges resource host.id →
    InReach cache all edges query host →
      Admitted cache all edges query host ∨ Admitted cache all edges query resource

/-- Where one hop is enough, the pass adds only rows in reach. -/
theorem inReach_of_mem_foldl_followHost (oneHop : OneHop cache all edges query) {rows : List Resource} (subset : rows ⊆ all)
    {reachable : List String}
    (held : ∀ id ∈ reachable, ∃ row ∈ all, row.id = id ∧ InReach cache all edges query row)
    {id : String} (member : id ∈ rows.foldl (followHost cache edges) reachable) :
    ∃ row ∈ all, row.id = id ∧ InReach cache all edges query row := by
  induction rows generalizing reachable with
  | nil => exact held id member
  | cons row rows ih =>
      rw [List.foldl_cons] at member
      refine ih (fun later inRows => subset (List.mem_cons_of_mem _ inRows)) ?_ member
      intro next reached
      rcases (followHost_iff reachable row next).mp reached with old | new
      · exact held next old
      · obtain ⟨rfl, hostId, inReach, follows⟩ := new
        obtain ⟨host, hostStored, rfl, hostReach⟩ := held hostId inReach
        have stored : row ∈ all := subset List.mem_cons_self
        refine ⟨row, stored, rfl, ?_⟩
        rcases oneHop row stored host hostStored follows hostReach with admitted | admitted
        · exact Or.inr ⟨host, hostStored, admitted, follows⟩
        · exact Or.inl admitted

/-- What the projection returns where one hop is enough. -/
theorem mem_accessibleResources (distinct : (all.map (·.id)).Nodup)
    (oneHop : OneHop cache all edges query) {result : List Resource}
    (ran : accessibleResources cache all edges query = .ok result) {resource : Resource} :
    resource ∈ result ↔ resource ∈ all ∧ InReach cache all edges query resource := by
  obtain ⟨reachable, final, held⟩ := accessibleResources_passes cache all edges query
  obtain rfl := Except.ok.inj (ran.symm.trans final)
  simp only [List.mem_filter, List.contains_iff_mem]
  apply and_congr_right
  intro stored
  constructor
  · intro member
    obtain ⟨row, rowStored, sameId, reach⟩ :=
      inReach_of_mem_foldl_followHost oneHop (List.Subset.refl _) (fun id inReach => by
        obtain ⟨row, rowStored, rfl, admitted⟩ := (held id).mp inReach
        exact ⟨row, rowStored, rfl, Or.inl admitted⟩) member
    rwa [← List.inj_on_of_nodup_map distinct rowStored stored sameId]
  · intro reach
    rcases reach with admitted | follows
    · exact subset_foldl_followHost all reachable ((held _).mpr ⟨resource, stored, rfl, admitted⟩)
    · obtain ⟨host, hostStored, admitted, follows⟩ := follows
      exact mem_foldl_followHost_of_follows stored
        ((held host.id).mpr ⟨host, hostStored, rfl, admitted⟩) follows

theorem inReach_perm (distinct : (all.map (·.id)).Nodup) (perm : other.Perm all)
    {resource : Resource} :
    InReach cache other edges query resource ↔ InReach cache all edges query resource := by
  unfold InReach
  rw [admitted_perm distinct perm]
  apply or_congr_right
  apply exists_congr
  intro host
  rw [perm.mem_iff, admitted_perm distinct perm]

/-! ## Two orders -/

/-- An id that no row of a list has is not added. -/
theorem notMem_foldl_followHost {rows : List Resource} {id : String}
    (elsewhere : ∀ row ∈ rows, row.id ≠ id) {reachable : List String} (absent : id ∉ reachable) :
    id ∉ rows.foldl (followHost cache edges) reachable := by
  induction rows generalizing reachable with
  | nil => exact absent
  | cons row rows ih =>
      rw [List.foldl_cons]
      apply ih fun later inRows => elsewhere later (List.mem_cons_of_mem _ inRows)
      intro added
      rcases (followHost_iff reachable row id).mp added with old | new
      · exact absent old
      · exact elsewhere row List.mem_cons_self new.1.symm

variable {resource host : Resource} {rest : List Resource}

/-- Behind its host, a row that follows it is returned. -/
theorem mem_of_host_first {result : List Resource}
    (ran : accessibleResources cache (host :: resource :: rest) edges query = .ok result)
    (reach : InReach cache (host :: resource :: rest) edges query host)
    (follows : Follows cache edges resource host.id) : resource ∈ result := by
  obtain ⟨reachable, final, held⟩ :=
    accessibleResources_passes cache (host :: resource :: rest) edges query
  obtain rfl := Except.ok.inj (ran.symm.trans final)
  have hostHeld : host.id ∈ followHost cache edges reachable host := by
    rw [followHost_iff]
    rcases reach with admitted | hosted
    · exact Or.inl ((held host.id).mpr ⟨host, List.mem_cons_self, rfl, admitted⟩)
    · obtain ⟨above, stored, admitted, followsAbove⟩ := hosted
      exact Or.inr ⟨rfl, above.id, (held above.id).mpr ⟨above, stored, rfl, admitted⟩, followsAbove⟩
  have stored : resource ∈ host :: resource :: rest := List.mem_cons_of_mem _ List.mem_cons_self
  refine List.mem_filter.mpr ⟨stored, List.contains_iff_mem.mpr ?_⟩
  rw [List.foldl_cons]
  exact mem_foldl_followHost_of_follows List.mem_cons_self hostHeld follows

/-- Before its host, it is returned only if one of the two is admitted. -/
theorem notMem_of_host_last {result : List Resource}
    (ran : accessibleResources cache (resource :: host :: rest) edges query = .ok result)
    (distinct : ((resource :: host :: rest).map (·.id)).Nodup)
    (follows : Follows cache edges resource host.id)
    (hostOutside : ¬ Admitted cache (resource :: host :: rest) edges query host)
    (outside : ¬ Admitted cache (resource :: host :: rest) edges query resource) :
    resource ∉ result := by
  obtain ⟨reachable, final, held⟩ :=
    accessibleResources_passes cache (resource :: host :: rest) edges query
  obtain rfl := Except.ok.inj (ran.symm.trans final)
  have absent {row : Resource} (stored : row ∈ resource :: host :: rest)
      (refused : ¬ Admitted cache (resource :: host :: rest) edges query row) :
      row.id ∉ reachable := by
    intro member
    obtain ⟨other, inRows, sameId, admitted⟩ := (held row.id).mp member
    rw [List.inj_on_of_nodup_map distinct stored inRows sameId] at refused
    exact refused admitted
  have elsewhere : ∀ row ∈ host :: rest, row.id ≠ resource.id := by
    intro row inRows sameId
    rw [List.map_cons, List.nodup_cons] at distinct
    exact distinct.1 (sameId ▸ List.mem_map_of_mem inRows)
  intro member
  have added := List.contains_iff_mem.mp (List.mem_filter.mp member).2
  refine notMem_foldl_followHost elsewhere ?_ added
  rw [followHost_iff, not_or]
  refine ⟨absent List.mem_cons_self outside, fun new => ?_⟩
  obtain ⟨-, hostId, inReach, -, -, named⟩ := new
  obtain rfl := Option.some.inj (follows.2.2.symm.trans named)
  exact absent (List.mem_cons_of_mem _ List.mem_cons_self) hostOutside inReach

theorem exists_perm_cons {row : Resource} (stored : row ∈ all) :
    ∃ rest, (row :: rest).Perm all := by
  obtain ⟨front, back, rfl⟩ := List.append_of_mem stored
  exact ⟨front ++ back, List.perm_middle.symm⟩

/-- The projection returns the same rows for every order of the catalogue. -/
def OrderFree (cache : TemplateCache) (all : List Resource) (edges : List ResourceEdge)
    (query : AccessQuery) : Prop :=
  ∀ other : List Resource, other.Perm all → ∀ result resultOther,
    accessibleResources cache all edges query = .ok result →
    accessibleResources cache other edges query = .ok resultOther →
      ∀ resource, resource ∈ resultOther ↔ resource ∈ result

/-- Two orders tell a chain of two hops apart. -/
theorem oneHop_of_orderFree (distinct : (all.map (·.id)).Nodup)
    (free : OrderFree cache all edges query) : OneHop cache all edges query := by
  intro resource stored host hostStored follows reach
  by_contra neither
  rw [not_or] at neither
  obtain ⟨hostOutside, outside⟩ := neither
  have different : host ≠ resource := by
    rintro rfl
    rcases reach with admitted | hosted
    · exact outside admitted
    · obtain ⟨above, aboveStored, admitted, followsAbove⟩ := hosted
      have sameId := Option.some.inj (follows.2.2.symm.trans followsAbove.2.2)
      rw [List.inj_on_of_nodup_map distinct stored aboveStored sameId] at outside
      exact outside admitted
  obtain ⟨others, permOthers⟩ := exists_perm_cons stored
  have inOthers : host ∈ others :=
    (List.mem_cons.mp (permOthers.mem_iff.mpr hostStored)).resolve_left different
  obtain ⟨rest, permRest⟩ := exists_perm_cons inOthers
  have hostLast : (resource :: host :: rest).Perm all := (permRest.cons resource).trans permOthers
  have hostFirst : (host :: resource :: rest).Perm all := (List.Perm.swap _ _ _).trans hostLast
  obtain ⟨reachable, ran, -⟩ := accessibleResources_passes cache all edges query
  obtain ⟨reachFirst, ranFirst, -⟩ :=
    accessibleResources_passes cache (host :: resource :: rest) edges query
  obtain ⟨reachLast, ranLast, -⟩ :=
    accessibleResources_passes cache (resource :: host :: rest) edges query
  have returned := mem_of_host_first ranFirst ((inReach_perm distinct hostFirst).mpr reach) follows
  have missing := notMem_of_host_last ranLast ((hostLast.map _).nodup_iff.mpr distinct) follows
    (mt (admitted_perm distinct hostLast).mp hostOutside)
    (mt (admitted_perm distinct hostLast).mp outside)
  exact missing ((free _ hostLast _ _ ran ranLast resource).mpr
    ((free _ hostFirst _ _ ran ranFirst resource).mp returned))

/-- With distinct ids, the order of the catalogue does not matter exactly if one hop is enough. -/
theorem orderFree_iff (cache : TemplateCache) (all : List Resource) (edges : List ResourceEdge)
    (query : AccessQuery) (distinct : (all.map (·.id)).Nodup) :
    OrderFree cache all edges query ↔ OneHop cache all edges query := by
  constructor
  · exact oneHop_of_orderFree distinct
  · intro oneHop other perm result resultOther ran ranOther resource
    have distinctOther : (other.map (·.id)).Nodup := (perm.map _).nodup_iff.mpr distinct
    have oneHopOther : OneHop cache other edges query := by
      intro resource stored host hostStored follows reach
      rw [admitted_perm distinct perm, admitted_perm distinct perm]
      exact oneHop resource (perm.mem_iff.mp stored) host (perm.mem_iff.mp hostStored) follows
        ((inReach_perm distinct perm).mp reach)
    rw [mem_accessibleResources distinct oneHop ran,
      mem_accessibleResources distinctOther oneHopOther ranOther, perm.mem_iff,
      inReach_perm distinct perm]

/-! ## A service of a service -/

private def nas : Resource := ⟨"h", "host", "nas", "host_nas", none, none,
  (∅ : Metadata).insert "isPublic" (.bool true)⟩

private def proxy : Resource := ⟨"a", "service", "proxy", "proxy", none, none,
  (∅ : Metadata).insert "subType" (.str "docker")⟩

private def forward : Resource := ⟨"b", "service", "forward", "forward", none, none,
  (∅ : Metadata).insert "subType" (.str "port-forward")⟩

private def nasEdges : List ResourceEdge :=
  [⟨some "h", some "a", "hosts", none⟩, ⟨some "a", some "b", "hosts", none⟩]

private def nobody : AccessQuery := ⟨[], none, none, [], []⟩

theorem orderFree_iff_nas : OrderFree none [nas, proxy] nasEdges nobody ↔
    OneHop none [nas, proxy] nasEdges nobody :=
  orderFree_iff none [nas, proxy] nasEdges nobody (by decide)

/-- A port forwarded by a container on a public machine is returned only behind the container. -/
theorem not_orderFree : ¬ OrderFree none [nas, proxy, forward] nasEdges nobody := by
  intro free
  have anyone : Admitted none [nas, proxy, forward] nasEdges nobody nas :=
    ⟨by decide +kernel, Or.inl (by decide +kernel)⟩
  have onNas : Follows none nasEdges proxy nas.id :=
    ⟨by decide +kernel, by decide +kernel, by decide +kernel⟩
  have onProxy : Follows none nasEdges forward proxy.id :=
    ⟨by decide +kernel, by decide +kernel, by decide +kernel⟩
  have refused {service : Resource} (notHost : service.kind ≠ "host")
      (closed : (service.metadata.field "isPublic").isTruthy = false)
      (ungranted : service.id ∉ inherited nasEdges nobody) :
      ¬ Admitted none [nas, proxy, forward] nasEdges nobody service := by
    intro admitted
    rcases admitted.2 with isPublic | granted | agentHost
    · rw [closed] at isPublic
      cases isPublic
    · exact ungranted granted
    · exact notHost agentHost.1
  have oneHop := oneHop_of_orderFree (by decide) free
  rcases oneHop forward (by simp) proxy (by simp) onProxy
    (Or.inr ⟨nas, List.mem_cons_self, anyone, onNas⟩) with admitted | admitted
  · exact refused (by decide) (by decide +kernel) (by decide +kernel) admitted
  · exact refused (by decide) (by decide +kernel) (by decide +kernel) admitted

end ThetaDirectory.Access
