import Mathlib.Data.List.Nodup
import ThetaDirectory.Groups.Provisioning

/-!
# The provisioned lattice

What provisioning builds, without DNs and text: nodes for the groups and edges
for the nestings.  `Lattice.toGroups` prints a lattice as a group tree, and every
provisioning call on the tree is a sequence of `Action`s on the lattice.
-/

namespace ThetaDirectory.Groups

open Library Library.Delimited

/-! ## Letter case -/

theorem lc_append (left right : String) : lc (left ++ right) = lc left ++ lc right := by
  simp [lc, toLowerCase, String.ofList_append]

@[simp] theorem lc_field (base value : String) : lc (field base value) = field (lc base) (lc value) := by
  have delimiter : lc "_" = "_" := by decide
  simp only [field, lc_append, delimiter]

/-! ## Nodes -/

/-- The two levels provisioning creates groups for. -/
inductive Level where
  | admin
  | access
  deriving DecidableEq, Repr

namespace Level

def text : Level → String
  | .admin => "admin"
  | .access => "access"

/-- Holding the first level includes the second. -/
def Implies : Level → Level → Prop
  | .access, .admin => False
  | _, _ => True

instance (held wanted : Level) : Decidable (held.Implies wanted) := by
  cases held <;> cases wanted <;> simp only [Implies] <;> infer_instance

@[simp] theorem underscore_notMem_text (level : Level) : '_' ∉ level.text.toList := by
  cases level <;> decide

@[simp] theorem text_inj {left right : Level} : left.text = right.text ↔ left = right := by
  cases left <;> cases right <;> decide

@[simp] theorem lc_text (level : Level) : lc level.text = level.text := by
  cases level <;> decide

end Level

@[simp] theorem Kind.lc_text (kind : Kind) : lc kind.text = kind.text := by
  cases kind <;> decide

@[simp] theorem Kind.lc_plural (kind : Kind) : lc kind.plural = kind.plural := by
  cases kind <;> decide

/-- A slug `slugify` can produce. -/
structure Slug where
  text : String
  plain : ∀ char ∈ text.toList, isSlugChar char ∨ char = '-'
  deriving DecidableEq

namespace Slug

/-- The slug in the group names of a resource. -/
def ofResource (slug : Option String) : Slug :=
  ⟨slugify (resourceNameSlug slug), fun _ member => slugify_chars member⟩

theorem underscore_notMem_text (slug : Slug) : '_' ∉ slug.text.toList := by
  intro member
  rcases slug.plain _ member with slugChar | dash
  · exact absurd slugChar (by decide)
  · exact absurd dash (by decide)

@[simp] theorem lc_text (slug : Slug) : lc slug.text = slug.text :=
  toLowerCase_eq_self fun char member => lowerChar_slugChar (slug.plain char member)

@[simp] theorem text_inj {left right : Slug} : left.text = right.text ↔ left = right := by
  constructor
  · intro same
    cases left
    cases right
    simpa using same
  · rintro rfl
    rfl

end Slug

/-- The groups provisioning knows. -/
inductive Node where
  | god
  | everyone (site : String)
  | superAdmin (site : String)
  | aggregate (site : String) (kind : Kind) (level : Level)
  | specific (site : String) (kind : Kind) (slug : Slug) (level : Level)
  deriving DecidableEq

namespace Node

/-- The structured name of a node, but for the two global-looking ones. -/
def name : Node → Option GroupName
  | god | everyone _ => none
  | superAdmin site => some (.superAdmin site)
  | aggregate site kind level => some (.aggregate site kind level.text)
  | specific site kind slug level => some (.specific site kind slug.text level.text)

/-- The CN of a node. -/
def cn : Node → String
  | god => godAdmin
  | everyone site => field site "everyone"
  | superAdmin site => (GroupName.superAdmin site).cn
  | aggregate site kind level => (GroupName.aggregate site kind level.text).cn
  | specific site kind slug level => (GroupName.specific site kind slug.text level.text).cn

/-- The name with its site in lower case. -/
def folded : GroupName → GroupName
  | .superAdmin site => .superAdmin (lc site)
  | .aggregate site kind level => .aggregate (lc site) kind level
  | .specific site kind slug level => .specific (lc site) kind slug level

theorem lc_cn_of_name {node : Node} {name : GroupName} (named : node.name = some name) :
    lc node.cn = (folded name).cn := by
  have superWord : lc "super" = "super" := by decide
  have adminWord : lc "admin" = "admin" := by decide
  cases node <;> simp only [Node.name, reduceCtorEq, Option.some.injEq] at named <;>
    subst named <;> simp [cn, GroupName.cn, folded, superWord, adminWord]

theorem folded_plain {node : Node} {name : GroupName} (named : node.name = some name) :
    (folded name).Plain := by
  cases node <;> simp only [Node.name, reduceCtorEq, Option.some.injEq] at named <;>
    subst named
  · trivial
  · exact Level.underscore_notMem_text _
  · exact ⟨Slug.underscore_notMem_text _, Level.underscore_notMem_text _⟩

/-- The last field of a named CN is a level. -/
theorem exists_level_of_name {node : Node} {name : GroupName} (named : node.name = some name) :
    ∃ (stem : String) (level : Level), lc node.cn = field stem level.text := by
  rw [lc_cn_of_name named]
  cases node <;> simp only [Node.name, reduceCtorEq, Option.some.injEq] at named <;>
    subst named
  · exact ⟨_, .admin, rfl⟩
  · exact ⟨_, _, rfl⟩
  · exact ⟨_, _, rfl⟩

theorem lc_cn_everyone (site : String) : lc (everyone site).cn = field (lc site) "everyone" := by
  have everyoneWord : lc "everyone" = "everyone" := by decide
  simp [cn, everyoneWord]

theorem lc_cn_god : lc god.cn = godAdmin := by decide

/-- The node is global or belongs to one of the sites. -/
def Over (sites : List String) : Node → Prop
  | god => True
  | everyone site | superAdmin site | aggregate site _ _ | specific site _ _ _ => site ∈ sites

end Node

/-- No two sites differ by letter case only, and none is another one with a kind
word behind it. -/
def SitesApart (sites : List String) : Prop :=
  ∀ left ∈ sites, ∀ right ∈ sites,
    (lc left = lc right → left = right) ∧
      ∀ kind : Kind, lc left ≠ field (lc right) kind.text

namespace SitesApart

variable {sites : List String} (apart : SitesApart sites)
include apart

/-- Over the sites no folded name absorbs a kind word into its site. -/
theorem not_readsAs {left right : Node} (leftOver : left.Over sites)
    (rightOver : right.Over sites) {leftName rightName : GroupName}
    (leftNamed : left.name = some leftName) (rightNamed : right.name = some rightName) :
    ¬ (Node.folded leftName).ReadsAs (Node.folded rightName) := by
  cases left <;> simp only [Node.name, reduceCtorEq, Option.some.injEq] at leftNamed <;>
    subst leftNamed <;>
    cases right <;> simp only [Node.name, reduceCtorEq, Option.some.injEq] at rightNamed <;>
    subst rightNamed <;> simp only [Node.folded, GroupName.ReadsAs, not_false_eq_true]
  · exact fun absorbed => (apart _ leftOver _ rightOver).2 _ absorbed.1
  · exact fun absorbed => (apart _ leftOver _ rightOver).2 _ absorbed.1

/-- Over the sites the folded name determines the node. -/
theorem eq_of_folded_eq {left right : Node} (leftOver : left.Over sites)
    (rightOver : right.Over sites) {leftName rightName : GroupName}
    (leftNamed : left.name = some leftName) (rightNamed : right.name = some rightName)
    (same : Node.folded leftName = Node.folded rightName) : left = right := by
  cases left <;> simp only [Node.name, reduceCtorEq, Option.some.injEq] at leftNamed <;>
    subst leftNamed <;>
    cases right <;> simp only [Node.name, reduceCtorEq, Option.some.injEq] at rightNamed <;>
    subst rightNamed <;>
    simp only [Node.folded, reduceCtorEq, GroupName.superAdmin.injEq, GroupName.aggregate.injEq,
      GroupName.specific.injEq, Level.text_inj, Slug.text_inj] at same
  · rw [(apart _ leftOver _ rightOver).1 same]
  · obtain ⟨siteEq, rfl, rfl⟩ := same
    rw [(apart _ leftOver _ rightOver).1 siteEq]
  · obtain ⟨siteEq, rfl, rfl, rfl⟩ := same
    rw [(apart _ leftOver _ rightOver).1 siteEq]

/-- Different nodes over the sites have CNs that differ by more than case. -/
theorem lc_cn_inj {left right : Node} (leftOver : left.Over sites)
    (rightOver : right.Over sites) : lc left.cn = lc right.cn ↔ left = right := by
  have everyoneFree : '_' ∉ "everyone".toList := by decide
  have adminFree : '_' ∉ "admin".toList := by decide
  have godField : godAdmin = field "god" "admin" := by decide
  have levelNe : ∀ level : Level, level.text ≠ "everyone" := by
    intro level
    cases level <;> decide
  refine ⟨fun same => ?_, fun same => by rw [same]⟩
  cases leftName : left.name with
  | some leftText =>
      cases rightName : right.name with
      | some rightText =>
          rw [Node.lc_cn_of_name leftName, Node.lc_cn_of_name rightName,
            GroupName.cn_eq_iff (Node.folded_plain leftName) (Node.folded_plain rightName)] at same
          rcases same with equal | absorbed | absorbed
          · exact eq_of_folded_eq apart leftOver rightOver leftName rightName equal
          · exact absurd absorbed (not_readsAs apart leftOver rightOver leftName rightName)
          · exact absurd absorbed (not_readsAs apart rightOver leftOver rightName leftName)
      | none =>
          cases right <;> simp only [Node.name, reduceCtorEq] at rightName
          · rw [Node.lc_cn_of_name leftName, Node.lc_cn_god] at same
            exact absurd same (GroupName.cn_ne_godAdmin (Node.folded_plain leftName))
          · obtain ⟨stem, level, last⟩ := Node.exists_level_of_name leftName
            rw [last, Node.lc_cn_everyone,
              field_inj level.underscore_notMem_text everyoneFree] at same
            exact absurd same.2 (levelNe level)
  | none =>
      cases left <;> simp only [Node.name, reduceCtorEq] at leftName
      · cases rightName : right.name with
        | some rightText =>
            rw [Node.lc_cn_of_name rightName, Node.lc_cn_god] at same
            exact absurd same.symm (GroupName.cn_ne_godAdmin (Node.folded_plain rightName))
        | none =>
            cases right <;> simp only [Node.name, reduceCtorEq] at rightName
            · rfl
            · rw [Node.lc_cn_everyone, Node.lc_cn_god, godField,
                field_inj adminFree everyoneFree] at same
              exact absurd same.2 (by decide)
      · cases rightName : right.name with
        | some rightText =>
            obtain ⟨stem, level, last⟩ := Node.exists_level_of_name rightName
            rw [last, Node.lc_cn_everyone,
              field_inj everyoneFree level.underscore_notMem_text] at same
            exact absurd same.2.symm (levelNe level)
        | none =>
            cases right <;> simp only [Node.name, reduceCtorEq] at rightName
            · rw [Node.lc_cn_everyone, Node.lc_cn_god, godField,
                field_inj everyoneFree adminFree] at same
              exact absurd same.2 (by decide)
            · rw [Node.lc_cn_everyone, Node.lc_cn_everyone,
                field_inj everyoneFree everyoneFree] at same
              rw [(apart _ leftOver _ rightOver).1 same.1]

end SitesApart

/-! ## The lattice as a group tree -/

namespace GroupBase

variable {base : GroupBase}

theorem lc_groupDn_inj {left right : String}
    (same : lc (base.groupDn left) = lc (base.groupDn right)) : lc left = lc right := by
  apply base.escapeDN_inj
  simpa [groupDn, lc_append, ← String.toList_inj] using same

theorem groupDn_ne_empty (cn : String) : base.groupDn cn ≠ "" := by
  simp [groupDn, ← String.toList_inj]

end GroupBase

/-- The groups with the persons who created them, and the nestings from child to
parent. -/
structure Lattice (base : GroupBase) where
  nodes : List (Node × base.UserDn)
  edges : List (Node × Node)

namespace Node

/-- Every nesting provisioning makes leads to a higher rank. -/
def rank : Node → Nat
  | god | everyone _ => 0
  | superAdmin _ => 1
  | specific _ _ _ .admin => 2
  | specific _ _ _ .access => 3
  | aggregate _ _ .admin => 4
  | aggregate _ _ .access => 5

/-- The DN of a node as the closures compare it. -/
def key (base : GroupBase) (node : Node) : String := lc (base.groupDn node.cn)

end Node

namespace Lattice

variable {base : GroupBase}

/-- The nodes, without their creators. -/
def held (lattice : Lattice base) : List Node := lattice.nodes.map Prod.fst

/-- The entry of one node. -/
def toGroup (lattice : Lattice base) (entry : Node × base.UserDn) : LdapGroup where
  dn := base.groupDn entry.1.cn
  cn := entry.1.cn
  member := entry.2.dn ::
    (lattice.edges.filter (·.2 = entry.1)).map fun edge => base.groupDn edge.1.cn

/-- The tree of a lattice. -/
def toGroups (lattice : Lattice base) : List LdapGroup := lattice.nodes.map lattice.toGroup

/-- Create a node unless it exists. -/
def create (owner : base.UserDn) (lattice : Lattice base) (node : Node) : Lattice base :=
  if node ∈ lattice.held then lattice
  else { lattice with nodes := lattice.nodes ++ [(node, owner)] }

/-- Nest one existing node in another. -/
def nest (lattice : Lattice base) (edge : Node × Node) : Lattice base :=
  if edge.1 ∈ lattice.held ∧ edge.2 ∈ lattice.held ∧ edge ∉ lattice.edges then
    { lattice with edges := lattice.edges ++ [edge] }
  else lattice

/-- The invariant of the lattices provisioning builds. -/
structure Valid (sites : List String) (lattice : Lattice base) : Prop where
  isOver : ∀ node ∈ lattice.held, node.Over sites
  distinct : lattice.held.Nodup
  ends : ∀ edge ∈ lattice.edges, edge.1 ∈ lattice.held ∧ edge.2 ∈ lattice.held
  rises : ∀ edge ∈ lattice.edges, edge.1.rank < edge.2.rank

@[simp] theorem held_create {owner : base.UserDn} {lattice : Lattice base} {node other : Node} :
    other ∈ (lattice.create owner node).held ↔ other ∈ lattice.held ∨ other = node := by
  unfold create
  split
  · rename_i present
    exact ⟨Or.inl, fun member => member.elim id fun same => same ▸ present⟩
  · simp [held]

@[simp] theorem edges_create {owner : base.UserDn} {lattice : Lattice base} {node : Node} :
    (lattice.create owner node).edges = lattice.edges := by
  unfold create
  split <;> rfl

@[simp] theorem held_nest {lattice : Lattice base} {edge : Node × Node} :
    (lattice.nest edge).held = lattice.held := by
  unfold nest
  split <;> rfl

theorem mem_edges_nest {lattice : Lattice base} {edge other : Node × Node} :
    other ∈ (lattice.nest edge).edges ↔
      other ∈ lattice.edges ∨ other = edge ∧ edge.1 ∈ lattice.held ∧ edge.2 ∈ lattice.held := by
  unfold nest
  split
  · rename_i both
    simp [both.1, both.2.1]
  · rename_i blocked
    constructor
    · exact Or.inl
    · rintro (member | ⟨rfl, child, parent⟩)
      · exact member
      · exact not_not.mp fun fresh => blocked ⟨child, parent, fresh⟩

namespace Valid

variable {sites : List String} {lattice : Lattice base} (valid : lattice.Valid sites)
include valid

theorem create {owner : base.UserDn} {node : Node} (isOver : node.Over sites) :
    (lattice.create owner node).Valid sites where
  isOver := by
    intro other member
    rcases held_create.mp member with old | rfl
    · exact valid.isOver other old
    · exact isOver
  distinct := by
    unfold Lattice.create
    split
    · exact valid.distinct
    · rename_i fresh
      have disjoint : lattice.held.Disjoint [node] := by simpa using fresh
      simpa [held] using List.Nodup.append valid.distinct (by simp) disjoint
  ends := by
    intro edge member
    rw [edges_create] at member
    obtain ⟨child, parent⟩ := valid.ends edge member
    exact ⟨held_create.mpr (Or.inl child), held_create.mpr (Or.inl parent)⟩
  rises := by
    intro edge member
    rw [edges_create] at member
    exact valid.rises edge member

theorem nest {edge : Node × Node} (rises : edge.1.rank < edge.2.rank) :
    (lattice.nest edge).Valid sites where
  isOver := by
    rw [held_nest]
    exact valid.isOver
  distinct := by
    rw [held_nest]
    exact valid.distinct
  ends := by
    intro other member
    rw [held_nest]
    rcases mem_edges_nest.mp member with old | ⟨rfl, both⟩
    · exact valid.ends other old
    · exact both
  rises := by
    intro other member
    rcases mem_edges_nest.mp member with old | ⟨rfl, -⟩
    · exact valid.rises other old
    · exact rises

end Valid

end Lattice

end ThetaDirectory.Groups
