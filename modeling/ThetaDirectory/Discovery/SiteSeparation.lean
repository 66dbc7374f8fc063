import ThetaDirectory.Discovery.Acyclicity
import ThetaDirectory.Discovery.Collisions
import ThetaDirectory.Discovery.EdgeOwnership
import ThetaDirectory.Discovery.Retention

/-!
# Reports of different sites

The master reconciles the reports its spokes forward (`POST /spokes/discovery-report` of
`routes/api_site.js`) like its own: nothing tells a run which site reported.  The reports
of the sites stay apart when their sources, slugs and addresses do and each names its
site.
-/

namespace ThetaDirectory.Discovery

open Library Catalog

/-- A forwarded report with the site it comes from, which the code does not see. -/
structure SiteReport where
  site : String
  env : Env
  cache : TemplateCache
  sourceName : String
  payload : Payload
  options : Options

namespace SiteReport

def apply (report : SiteReport) (store : Store) : Store :=
  (reconcile report.env report.cache report.sourceName report.payload report.options store).1

def items (report : SiteReport) : List Item := report.payload.resources.map (promote report.options)

end SiteReport

/-- Under which condition a report keeps to its site, where `home` is the site each id
belongs to. -/
structure KeepsApart (home : String → String) (report : SiteReport) (store : Store) : Prop where
  ownRows : ∀ row ∈ store.resources, report.sourceName ∈ sourcesOf row.metadata →
    home row.id = report.site
  ownEdges : ∀ edge ∈ store.edges, edge.source = some report.sourceName →
    home edge.parentId = report.site ∧ home edge.childId = report.site
  located : ∀ site later, resolveTarget report.env report.options store = (.site site, later) →
    ∃ row, site = some row ∧ home row.id = report.site
  drawn : ∀ draw, home (report.env.uuid draw) = report.site
  avoids : Avoids report.cache (fun id => home id ≠ report.site) report.items store.resources
  named : NoneNamed (fun id => home id ≠ report.site)
    (report.payload.edges.map (·.parentSlug) ++ report.payload.edges.map (·.childSlug))
    store.resources
  parents : ∀ edge ∈ report.payload.edges, ∀ row ∈ store.resources,
    edge.parentSlug = some row.slug → report.sourceName ∈ sourcesOf row.metadata →
      edge.parentSlug ∈ report.payload.resources.map (·.slug)
  related : ∀ edge ∈ report.payload.edges, edge.relation.isSome = true
  valid : report.payload.Valid
  placeable : EveryPlaceable report.env report.cache report.sourceName report.payload
    report.options store
  children : ∀ edge ∈ store.edges, ∃ row ∈ store.resources, row.id = edge.childId

/-- What a report that keeps apart does: the rows and edges of other sites stay as they
are, new edges lie within the site, and a new row is filed under a row of the site, unless
it is the site itself. -/
structure Apart (home : String → String) (report : SiteReport) (before after : Store) :
    Prop where
  rows : ∀ row, home row.id ≠ report.site →
    (row ∈ after.resources ↔ row ∈ before.resources)
  edges : ∀ edge, home edge.parentId ≠ report.site → home edge.childId ≠ report.site →
    (edge ∈ after.edges ↔ edge ∈ before.edges)
  newEdges : ∀ edge ∈ after.edges, edge ∈ before.edges ∨
    home edge.parentId = report.site ∧ home edge.childId = report.site
  newRows : ∀ row ∈ after.resources, (∀ old ∈ before.resources, old.id ≠ row.id) →
    home row.id = report.site ∧
      ((∃ site later, resolveTarget report.env report.options before = (.site (some site), later) ∧
          site.id = row.id) ∨
        (∃ edge ∈ after.edges, edge.childId = row.id) ∧
          ∀ edge ∈ after.edges, edge.childId = row.id → home edge.parentId = report.site)

variable {home : String → String} {report : SiteReport} {store later : Store}
  {context : Context} {payload : Payload} {start run : Run}

/-! ## The rows -/

theorem not_spared_of_drawn {site : Option Resource}
    (keeps : KeepsApart home report store)
    (found : resolveTarget report.env report.options store = (.site site, later)) :
    ∀ row ∈ later.resources, home row.id ≠ report.site → row ∈ store.resources := by
  intro row member away
  rcases (located_resolveTarget found).adds row member with old | ⟨-, -, draw, -, idEq⟩
  · exact old
  · exact absurd (idEq ▸ keeps.drawn draw) away

/-- The loop over the resources leaves the rows of other sites alone. -/
theorem spared_report {site : Option Resource} (keeps : KeepsApart home report store)
    (found : resolveTarget report.env report.options store = (.site site, later)) :
    Spared (fun id => home id ≠ report.site) ⟨later, siteMap later, [], 2⟩
      (placeAll ⟨report.env, report.cache, report.sourceName, site.map (·.id)⟩ report.items
        ⟨later, siteMap later, [], 2⟩).1 := by
  refine spared_placeAll ⟨?_, keeps.avoids.notNamed⟩ (fun draw _ => ?_) rfl le_rfl
  · intro row member away
    exact keeps.avoids.notMatched row (not_spared_of_drawn keeps found row member away) away
  · exact fun away => away (keeps.drawn draw)

/-- Rows that the source does not know stay as they are to the end. -/
theorem mem_settle_of_unknown {row : Resource}
    (apart : ∀ other ∈ run.store.resources, context.sourceName ∈ sourcesOf other.metadata →
      other.id ≠ row.id) :
    row ∈ (settle context payload run).resources ↔ row ∈ run.store.resources := by
  refine @settle_invariant context run
    (fun store => row ∈ store.resources ↔ row ∈ run.store.resources) payload Iff.rfl ?_
  intro _ store other member same
  rcases retire_cases context.sourceName (!payload.edges.isEmpty) (run.reported.map (·.actualId))
    store other with unchanged | ⟨known, -, updated | ⟨-, -, -, purged⟩⟩
  · rw [unchanged]
    exact same
  · have different := apart other member known
    rw [updated, Store.mem_update_iff, ← same]
    constructor
    · rintro (⟨old, -, sameId, rfl⟩ | ⟨stays, -⟩)
      · exact absurd sameId.symm different
      · exact stays
    · exact fun stays => Or.inr ⟨stays, different.symm⟩
  · have different := apart other member known
    rw [purged, ← same]
    simp [Store.purge, different.symm]

/-! ## The edges -/

/-- All that the edges of a run can lead between belongs to the site. -/
structure AtSite (home : String → String) (site : String) (context : Context) (payload : Payload)
    (run : Run) : Prop where
  resolved : ∀ edge ∈ payload.edges, ∀ id, resolveSlug run edge.parentSlug = some id ∨
    resolveSlug run edge.childSlug = some id → home id = site
  target : ∀ siteId, context.incomingSiteId = some siteId → home siteId = site
  reported : ∀ item ∈ run.reported, home item.actualId = site

/-- Linking touches no edge into a row of another site and adds edges within the site. -/
theorem edges_linkAll {site : String} (atSite : AtSite home site context payload run) :
    (∀ edge, home edge.childId ≠ site →
      (edge ∈ (linkAll context payload run).edges ↔ edge ∈ run.store.edges)) ∧
    ∀ edge ∈ (linkAll context payload run).edges, edge ∈ run.store.edges ∨
      home edge.parentId = site ∧ home edge.childId = site := by
  refine @linkAll_invariant context run (fun linking =>
    (∀ edge, home edge.childId ≠ site → (edge ∈ linking.edges ↔ edge ∈ run.store.edges)) ∧
    ∀ edge ∈ linking.edges, edge ∈ run.store.edges ∨
      home edge.parentId = site ∧ home edge.childId = site) payload
    ⟨fun _ _ => Iff.rfl, fun _ member => Or.inl member⟩ ?_ ?_
  · rintro linking edge member ⟨others, within⟩
    rcases linkEdge_cases context run linking edge with same | ⟨parentId, childId, linked⟩
    · rw [same]
      exact ⟨others, within⟩
    · have parentHome := atSite.resolved edge member parentId (Or.inl linked.parent)
      have childHome := atSite.resolved edge member childId (Or.inr linked.child)
      refine ⟨fun row away => ?_, fun row rowMember => ?_⟩
      · rw [← others row away]
        constructor
        · intro rowMember
          refine (linked.adds row rowMember).resolve_right fun new => away ?_
          rw [new.2.1, childHome]
        · exact fun rowMember => linked.keeps row rowMember fun same => away (same ▸ childHome)
      · rcases linked.adds row rowMember with old | ⟨parentEq, childEq, -⟩
        · exact within row old
        · exact Or.inr ⟨parentEq ▸ parentHome, childEq ▸ childHome⟩
  · rintro siteId known linking item member ⟨others, within⟩
    rcases fileUnderSite_cases context siteId linking item with ⟨same, -⟩ | ⟨-, adds, keeps, -⟩
    · rw [same]
      exact ⟨others, within⟩
    · have itemHome := atSite.reported item member
      refine ⟨fun row away => ?_, fun row rowMember => ?_⟩
      · rw [← others row away]
        exact ⟨fun rowMember => (adds row rowMember).resolve_right fun new =>
          away (by rw [new.2.1, itemHome]), keeps row⟩
      · rcases adds row rowMember with old | ⟨parentEq, childEq, -⟩
        · exact within row old
        · exact Or.inr ⟨parentEq ▸ atSite.target siteId known, childEq ▸ itemHome⟩

/-! ## A new row is filed -/

/-- The loop reports the slugs of the payload in order. -/
theorem slugs_placeAll {context : Context} {items : List Item} {start run : Run}
    (ran : placeAll context items start = (run, none)) :
    run.reported.map (·.originalSlug) =
      start.reported.map (·.originalSlug) ++ items.map (·.slug) := by
  induction items generalizing start with
  | nil =>
      simp only [placeAll, Prod.mk.injEq, and_true] at ran
      simp [← ran]
  | cons item items ih =>
      simp only [placeAll] at ran
      split at ran
      · rename_i next placed
        rw [ih ran]
        rcases placeItem_cases placed with ⟨existing, -, -, rfl⟩ | ⟨row, -, -, rfl⟩ <;> simp
      · cases ran

/-- With different slugs each stands for the row reported under it. -/
theorem resolveSlug_reported {item : Reported} (distinct : (run.reported.map (·.originalSlug)).Nodup)
    (member : item ∈ run.reported) : resolveSlug run item.originalSlug = some item.actualId := by
  unfold resolveSlug
  cases found : run.reported.find? fun other => other.originalSlug == item.originalSlug with
  | none =>
      rw [List.find?_eq_none] at found
      exact absurd (by simp) (found item member)
  | some other =>
      have same : other.originalSlug = item.originalSlug := by simpa using List.find?_some found
      rw [List.inj_on_of_nodup_map distinct (List.mem_of_find?_eq_some found) member same]

/-- What holds of a row without earlier edges while the edges are linked: every edge into
it is one the run reports, and once it has been given a parent it has one. -/
structure Filing (item : Reported) (linking : Linking) : Prop where
  current : ∀ edge ∈ linking.edges, edge.childId = item.actualId →
    edgeKey edge.parentId edge.childId (some edge.relation) ∈ linking.currentEdgeKeys
  parented : item.originalSlug ∈ linking.parentedSlugs →
    ∃ edge ∈ linking.edges, edge.childId = item.actualId

theorem Filing.link {item : Reported} {linking : Linking} {edge : ItemEdge}
    (filing : Filing item linking)
    (distinct : (run.reported.map (·.originalSlug)).Nodup) (member : item ∈ run.reported)
    (related : edge.relation.isSome = true) :
    Filing item (linkEdge context run linking edge) := by
  rcases linkEdge_cases context run linking edge with same | ⟨parentId, childId, linked⟩
  · rw [same]
    exact filing
  · obtain ⟨relation, relationEq⟩ := Option.isSome_iff_exists.mp related
    refine ⟨fun row rowMember isChild => ?_, fun parented => ?_⟩
    · rw [linked.currentEdgeKeys, List.mem_append, List.mem_singleton]
      by_cases old : row ∈ linking.edges
      · exact Or.inl (filing.current row old isChild)
      · have new := (linked.adds row rowMember).resolve_left old
        have relationNew := (linked.relation row rowMember).resolve_left old
        right
        rw [new.1, new.2.1, relationNew, relationEq, Option.getD_some]
    · by_cases isChild : childId = item.actualId
      · obtain ⟨row, rowMember, -, childEq⟩ := linked.present
        exact ⟨row, rowMember, childEq.trans isChild⟩
      · rw [linked.parentedSlugs, List.mem_append, List.mem_singleton] at parented
        rcases parented with old | new
        · obtain ⟨row, rowMember, childEq⟩ := filing.parented old
          exact ⟨row, linked.keeps row rowMember fun same => isChild (same ▸ childEq), childEq⟩
        · have resolved := resolveSlug_reported distinct member
          rw [new, linked.child] at resolved
          exact absurd (Option.some.inj resolved) isChild

theorem Filing.file {item other : Reported} {linking : Linking} {siteId : String}
    (filing : Filing item linking) :
    Filing item (fileUnderSite context siteId linking other) := by
  rcases fileUnderSite_cases context siteId linking other with
    ⟨same, -⟩ | ⟨-, adds, keeps, parented, keys, -⟩
  · rw [same]
    exact filing
  · refine ⟨fun row rowMember isChild => ?_, fun named => ?_⟩
    · rw [keys, List.mem_append, List.mem_singleton]
      by_cases old : row ∈ linking.edges
      · exact Or.inl (filing.current row old isChild)
      · have new := (adds row rowMember).resolve_left old
        have hosts := (fileUnderSite_relation context siteId linking other row
          rowMember).resolve_left old
        right
        rw [new.1, new.2.1, hosts]
    · rw [parented] at named
      obtain ⟨row, rowMember, childEq⟩ := filing.parented named
      exact ⟨row, keeps row rowMember, childEq⟩

/-- After the filing a row the run created has a parent. -/
theorem filing_linkAll {item : Reported} {siteId : String}
    (distinct : (run.reported.map (·.originalSlug)).Nodup) (member : item ∈ run.reported)
    (related : ∀ edge ∈ payload.edges, edge.relation.isSome = true)
    (parentless : ∀ edge ∈ run.store.edges, edge.childId ≠ item.actualId)
    (target : context.incomingSiteId = some siteId) (notSite : item.actualId ≠ siteId) :
    Filing item (linkAll context payload run) ∧
      ∃ edge ∈ (linkAll context payload run).edges, edge.childId = item.actualId := by
  have linked : Filing item (linkedBefore context run payload.edges) := by
    refine List.foldlRecOn payload.edges (linkEdge context run) ?_ ?_
    · exact ⟨fun edge inStore isChild => absurd isChild (parentless edge inStore),
        fun parented => absurd parented List.not_mem_nil⟩
    · exact fun linking filing edge inEdges =>
        filing.link distinct member (related edge inEdges)
  have filed : ∀ (items : List Reported) (linking : Linking), Filing item linking →
      Filing item (items.foldl (fileUnderSite context siteId) linking) ∧
        (item ∈ items ∨ (∃ edge ∈ linking.edges, edge.childId = item.actualId) →
          ∃ edge ∈ (items.foldl (fileUnderSite context siteId) linking).edges,
            edge.childId = item.actualId) := by
    intro items
    induction items with
    | nil =>
        intro linking filing
        exact ⟨filing, fun given => given.resolve_left List.not_mem_nil⟩
    | cons other items ih =>
        intro linking filing
        obtain ⟨after, parented⟩ := ih (fileUnderSite context siteId linking other)
          (filing.file)
        refine ⟨after, fun given => parented ?_⟩
        have stays : (∃ edge ∈ linking.edges, edge.childId = item.actualId) →
            ∃ edge ∈ (fileUnderSite context siteId linking other).edges,
              edge.childId = item.actualId := by
          rintro ⟨edge, inLinking, isChild⟩
          rcases fileUnderSite_cases context siteId linking other with
            ⟨same, -⟩ | ⟨-, -, keeps, -⟩
          · rw [same]
            exact ⟨edge, inLinking, isChild⟩
          · exact ⟨edge, keeps edge inLinking, isChild⟩
        rcases given with here | already
        · rcases List.mem_cons.mp here with rfl | later
          · right
            rcases fileUnderSite_cases context siteId linking item with
              ⟨-, isSite | parented⟩ | ⟨-, -, -, -, -, known | ⟨edge, inLater, isNew, -⟩⟩
            · exact absurd isSite notSite
            · exact stays (filing.parented parented)
            · exact stays known
            · exact ⟨edge, inLater, isNew.2.1⟩
          · exact Or.inl later
        · exact Or.inr (stays already)
  obtain ⟨after, parented⟩ := filed run.reported _ linked
  unfold linkAll
  rw [target]
  exact ⟨after, parented (Or.inl member)⟩

/-- An edge into such a row is still there when the run ends, unless its parent vanishes. -/
theorem mem_settle_of_filing {item : Reported} {edge : EdgeRow} {store : Store}
    (swept : Swept (Vanishes context payload run)
      { run.store with edges := keptEdges context payload run } store)
    (filing : Filing item (linkAll context payload run)) (member : item ∈ run.reported)
    (linked : edge ∈ (linkAll context payload run).edges) (isChild : edge.childId = item.actualId)
    (parentStays : ∀ gone, Vanishes context payload run gone → edge.parentId ≠ gone.id) :
    edge ∈ store.edges := by
  refine (swept.edges edge).mpr ⟨?_, fun gone vanished => ⟨?_, parentStays gone vanished⟩⟩
  · change edge ∈ keptEdges context payload run
    unfold keptEdges
    split
    · exact linked
    · refine List.mem_filter.mpr ⟨linked, ?_⟩
      simp [filing.current edge linked isChild]
  · intro sameId
    exact vanished.spec.1 (List.mem_map.mpr ⟨item, member, isChild ▸ sameId⟩)

/-- Each edge the run adds has its parent from an edge of the payload, or is the filing. -/
theorem parent_linkAll : ∀ edge ∈ (linkAll context payload run).edges, edge ∈ run.store.edges ∨
    (∃ reported ∈ payload.edges, resolveSlug run reported.parentSlug = some edge.parentId) ∨
      context.incomingSiteId = some edge.parentId := by
  refine @linkAll_invariant context run (fun linking => ∀ edge ∈ linking.edges,
    edge ∈ run.store.edges ∨
    (∃ reported ∈ payload.edges, resolveSlug run reported.parentSlug = some edge.parentId) ∨
      context.incomingSiteId = some edge.parentId) payload
    (fun edge member => Or.inl member) ?_ ?_
  · intro linking reported member named
    rcases linkEdge_cases context run linking reported with same | ⟨parentId, childId, linked⟩
    · rw [same]
      exact named
    · intro edge inNext
      rcases linked.adds edge inNext with old | ⟨parentEq, -⟩
      · exact named edge old
      · exact Or.inr (Or.inl ⟨reported, member, parentEq ▸ linked.parent⟩)
  · intro siteId known linking item _ named edge inNext
    rcases fileUnderSite_cases context siteId linking item with ⟨same, -⟩ | ⟨-, adds, -⟩
    · exact named edge (same ▸ inNext)
    · rcases adds edge inNext with old | ⟨parentEq, -⟩
      · exact named edge old
      · exact Or.inr (Or.inr (parentEq ▸ known))

/-- What such an edge leads from is there to the end. -/
theorem parent_stays {gone : Resource} {edge : EdgeRow} (keyed : run.store.Keyed)
    (distinct : (run.reported.map (·.originalSlug)).Nodup)
    (vanished : Vanishes context payload run gone)
    (known : ∀ reported ∈ payload.edges, reported.parentSlug = some gone.slug →
      reported.parentSlug ∈ run.reported.map (·.originalSlug))
    (site : ∀ siteId, context.incomingSiteId = some siteId →
      ∃ row ∈ run.store.resources, row.id = siteId ∧ row.kind = "site")
    (linked : edge ∈ (linkAll context payload run).edges) (new : edge ∉ run.store.edges) :
    edge.parentId ≠ gone.id := by
  intro same
  obtain ⟨unreported, -, -, notManual, -⟩ := vanished.spec
  rcases (parent_linkAll edge linked).resolve_left new with ⟨reported, member, resolved⟩ | target
  · have fromTable : reported.parentSlug ∉ run.reported.map (·.originalSlug) := by
      intro named
      obtain ⟨item, inReported, slugEq⟩ := List.mem_map.mp named
      have resolvedItem := resolveSlug_reported distinct inReported
      rw [slugEq, resolved, Option.some.injEq] at resolvedItem
      exact unreported (List.mem_map.mpr ⟨item, inReported, resolvedItem.symm.trans same⟩)
    rcases resolveSlug_cases resolved with ⟨item, inReported, slugEq, -⟩ | ⟨row, inTable, slugEq, idEq⟩
    · exact fromTable (List.mem_map.mpr ⟨item, inReported, slugEq⟩)
    · obtain rfl := keyed.eq_of_id inTable vanished.member (idEq.trans same)
      exact fromTable (known reported member slugEq.symm)
  · obtain ⟨row, inTable, idEq, isSite⟩ := site edge.parentId target
    obtain rfl := keyed.eq_of_id inTable vanished.member (idEq.trans same)
    simp [isManual, isSite] at notManual

/-! ## A report -/

/-- What a settled run leads between belongs to the site. -/
theorem atSite_report {row : Resource} (keeps : KeepsApart home report store)
    (found : resolveTarget report.env report.options store = (.site (some row), later))
    (placed : placeAll ⟨report.env, report.cache, report.sourceName, some row.id⟩ report.items
      ⟨later, siteMap later, [], 2⟩ = (run, none)) :
    AtSite home report.site ⟨report.env, report.cache, report.sourceName, some row.id⟩
      report.payload run := by
  have spared := spared_report keeps found
  rw [Option.map_some, placed] at spared
  have named : NoneNamed (fun id => home id ≠ report.site)
      (report.payload.edges.map (·.parentSlug) ++ report.payload.edges.map (·.childSlug))
      later.resources := fun other member away =>
    keeps.named other (not_spared_of_drawn keeps found other member away) away
  refine ⟨?_, ?_, fun item member => not_not.mp (spared.notReported item member)⟩
  · rintro edge member id (parent | child)
    · exact not_not.mp (not_spared_of_resolveSlug named spared
        (List.mem_append_left _ (List.mem_map_of_mem member)) parent)
    · exact not_not.mp (not_spared_of_resolveSlug named spared
        (List.mem_append_right _ (List.mem_map_of_mem member)) child)
  · rintro siteId known
    obtain ⟨site, siteEq, atHome⟩ := keeps.located _ _ found
    cases siteEq
    cases known
    exact atHome

/-- A row that a settled run created, the site apart, is filed under a row of the site. -/
theorem filed_report {row : Resource} (keyed : store.Keyed)
    (keeps : KeepsApart home report store)
    (found : resolveTarget report.env report.options store = (.site (some row), later))
    (placed : placeAll ⟨report.env, report.cache, report.sourceName, some row.id⟩ report.items
      ⟨later, siteMap later, [], 2⟩ = (run, none))
    {item : Reported} (member : item ∈ run.reported)
    (new : ∀ old ∈ store.resources, old.id ≠ item.actualId) (notSite : item.actualId ≠ row.id) :
    ∃ edge ∈ (settle ⟨report.env, report.cache, report.sourceName, some row.id⟩ report.payload
      run).edges, edge.childId = item.actualId := by
  have located := located_resolveTarget found
  have kept := kept_placeAll ⟨report.env, report.cache, report.sourceName, some row.id⟩
    report.items ⟨later, siteMap later, [], 2⟩
  have runKeyed : run.store.Keyed := by
    have := @keyed_placeAll ⟨report.env, report.cache, report.sourceName, some row.id⟩
      report.items ⟨later, siteMap later, [], 2⟩ (keyed_resolveTarget keyed found)
    rwa [placed] at this
  rw [placed] at kept
  have slugs : run.reported.map (·.originalSlug) = report.payload.resources.map (·.slug) := by
    rw [slugs_placeAll placed, SiteReport.items, List.map_map, List.map_nil, List.nil_append]
    refine List.map_congr_left fun item _ => ?_
    unfold promote
    rw [Function.comp_apply]
    split <;> rfl
  have distinct : (run.reported.map (·.originalSlug)).Nodup := slugs ▸ keeps.valid.distinct
  have parentless : ∀ edge ∈ run.store.edges, edge.childId ≠ item.actualId := by
    rw [kept.edges, located.edges]
    intro edge inStore same
    obtain ⟨child, inTable, idEq⟩ := keeps.children edge inStore
    exact new child inTable (idEq.trans same)
  obtain ⟨filing, edge, linked, isChild⟩ := @filing_linkAll
    ⟨report.env, report.cache, report.sourceName, some row.id⟩ report.payload run item row.id
    distinct member keeps.related parentless rfl notSite
  refine ⟨edge, ?_, isChild⟩
  refine mem_settle_of_filing (swept_settle _ _ _) filing member linked isChild ?_
  intro gone vanished
  refine parent_stays runKeyed distinct vanished ?_ ?_ linked
    fun old => parentless edge old isChild
  · intro reported inEdges named
    rw [slugs]
    exact keeps.parents reported inEdges gone
      (mem_store_of_vanishes located placed vanished) named vanished.spec.2.1
  · intro siteId known
    cases known
    obtain ⟨inLater, isSite⟩ := located.isSite row rfl
    obtain ⟨persists, inRun, idEq, kindEq⟩ := kept.persists row inLater
    exact ⟨persists, inRun, idEq, kindEq.trans isSite⟩

/-- Step lemma: a report that keeps to its site leaves the others alone and files what it
creates. -/
theorem apart_apply (keyed : store.Keyed) (keeps : KeepsApart home report store) :
    Apart home report store (report.apply store) := by
  have noThrow := everyPlaceable_iff.mp keeps.placeable
  unfold SiteReport.apply
  rcases reconcile_cases report.env report.cache report.sourceName report.payload report.options
    store with ⟨refused, -⟩ | ⟨site, later, run, error, found, placed, outcome⟩
  · rw [refused]
    exact ⟨fun _ _ => Iff.rfl, fun _ _ _ => Iff.rfl, fun _ member => Or.inl member,
      fun row member new => absurd rfl (new row member)⟩
  · rcases outcome with ⟨⟨text, isError⟩, thrown⟩ | ⟨rfl, finished⟩
    · rw [thrown, isError] at noThrow
      cases noThrow
    · rw [finished]
      obtain ⟨row, rfl, atHome⟩ := keeps.located site later found
      rw [Option.map_some] at placed ⊢
      have located := located_resolveTarget found
      have spared := spared_report keeps found
      have kept := kept_placeAll ⟨report.env, report.cache, report.sourceName, some row.id⟩
        (report.payload.resources.map (promote report.options)) ⟨later, siteMap later, [], 2⟩
      rw [placed] at kept
      rw [Option.map_some, SiteReport.items, placed] at spared
      have edges : run.store.edges = store.edges := kept.edges.trans located.edges
      obtain ⟨others, within⟩ := edges_linkAll (atSite_report keeps found placed)
      have swept := swept_settle ⟨report.env, report.cache, report.sourceName, some row.id⟩
        report.payload run
      have inStore : ∀ other, home other.id ≠ report.site →
          (other ∈ run.store.resources ↔ other ∈ store.resources) := by
        intro other away
        rw [spared.iff other away]
        exact ⟨fun member => not_spared_of_drawn keeps found other member away,
          located.keeps other⟩
      refine ⟨?_, ?_, ?_, ?_⟩
      · intro other away
        rw [mem_settle_of_unknown, inStore other away]
        intro known inRun isKnown same
        rw [← same] at away
        exact away (keeps.ownRows known ((inStore known away).mp inRun) isKnown)
      · intro edge parentAway childAway
        have goneHome : ∀ gone, Vanishes ⟨report.env, report.cache, report.sourceName,
            some row.id⟩ report.payload run gone → home gone.id = report.site := by
          intro gone vanished
          exact keeps.ownRows gone (mem_store_of_vanishes located placed vanished)
            vanished.spec.2.1
        rw [swept.edges edge, ← edges, ← others edge childAway]
        constructor
        · exact fun stays => keptEdges_subset stays.1
        · intro linked
          refine ⟨?_, fun gone vanished => ⟨fun same => childAway ?_, fun same => parentAway ?_⟩⟩
          · change edge ∈ keptEdges _ report.payload run
            unfold keptEdges
            split
            · exact linked
            · refine List.mem_filter.mpr ⟨linked, ?_⟩
              have notOwn : edge.source ≠ some report.sourceName := fun own =>
                parentAway (keeps.ownEdges edge (edges ▸ (others edge childAway).mp linked) own).1
              simp [notOwn]
          · rw [same, goneHome gone vanished]
          · rw [same, goneHome gone vanished]
      · intro edge member
        rcases within edge (settle_edges_subset edge member) with old | new
        · exact Or.inl (edges ▸ old)
        · exact Or.inr new
      · intro created member new
        obtain ⟨⟨placedRow, inRun, idEq⟩, -⟩ := swept.ids.mp ⟨created, member, rfl⟩
        rw [← idEq] at new ⊢
        rcases kept.reported placedRow inRun with before | ⟨item, reported, itemEq⟩
        · rcases located.adds placedRow before with old | ⟨-, isSite, -⟩
          · exact absurd rfl (new placedRow old)
          · obtain rfl := Option.some.inj isSite
            exact ⟨atHome, Or.inl ⟨row, later, found, rfl⟩⟩
        · rw [← itemEq] at new ⊢
          refine ⟨not_not.mp (spared.notReported item reported), ?_⟩
          by_cases isSite : item.actualId = row.id
          · exact Or.inl ⟨row, later, found, isSite.symm⟩
          · refine Or.inr ⟨filed_report keyed keeps found placed reported new isSite, ?_⟩
            intro edge inLater isChild
            rcases within edge (settle_edges_subset edge inLater) with old | ⟨parentHome, -⟩
            · obtain ⟨child, inTable, childEq⟩ := keeps.children edge (edges ▸ old)
              exact absurd (childEq.trans isChild) (new child inTable)
            · exact parentHome

/-- Ids with an `l` in front belong to the lab. -/
private def homeOf (id : String) : String :=
  if id.toList.head? = some 'l' then "lab" else "office"

private def drawing (char : Char) : Env where
  now := 1000
  uuid := fun draw => String.ofList (char :: List.replicate draw 'x')
  hex := fun _ => "0"

private theorem homeOf_drawing (char : Char) (draw : Nat) :
    homeOf ((drawing char).uuid draw) = if char = 'l' then "lab" else "office" := by
  simp [homeOf, drawing]

private def rackReport (site sourceName : String) (options : Options) (char : Char)
    (rack node : String) : SiteReport where
  site := site
  env := drawing char
  cache := none
  sourceName := sourceName
  payload := Payload.mk [⟨none, some "host", some rack, some rack, none, ∅⟩,
    ⟨none, some "host", some node, some node, none, ∅⟩] [⟨some rack, some node, some "hosts"⟩]
  options := options

private theorem rackReport_valid {site sourceName rack node : String} {options : Options}
    {char : Char} (rackNamed : rack ≠ "") (nodeNamed : node ≠ "") (different : rack ≠ node) :
    (rackReport site sourceName options char rack node).payload.Valid := by
  constructor
  · simp [rackReport, truthy, rackNamed, nodeNamed]
  · simp [rackReport, different]
  · intro item member kind given
    have isHost : kind = "host" := by
      simp only [rackReport, List.mem_cons, List.not_mem_nil, or_false] at member
      rcases member with rfl | rfl <;> exact (Option.some.inj given).symm
    simp [isHost, canonicalKinds]
  · intro edge member
    rw [List.mem_singleton.mp member]
    exact ⟨rack, node, by simp [truthy, rackNamed], by simp [truthy, nodeNamed], different⟩

private def twoSites : Store where
  resources := [⟨"o", "site", "office", "site_office", none, none,
      (∅ : Metadata).insert "isCurrentSite" (.bool true)⟩,
    ⟨"l", "site", "lab", "site_lab", none, none, ∅⟩]
  edges := []
  groups := []

end ThetaDirectory.Discovery
