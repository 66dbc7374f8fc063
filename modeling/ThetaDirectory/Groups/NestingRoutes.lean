import Mathlib.Data.List.Chain
import Mathlib.Data.List.Nodup
import ThetaDirectory.Groups.Provisioning
import ThetaDirectory.Library.Digraph
import ThetaDirectory.Library.Runs

/-!
# Nesting groups by hand

The routes of `routes/group.js` that nest a group in another one and take it out again,
beside the nesting that provisioning does.  The guard against loops looks a limited number
of levels down and knows the parent by the exact name in the request, so the tree stays
free of loops when a loop would be short and its parent is named as stored.
-/

namespace ThetaDirectory.Groups

open Library Relation

/-! ## The requests -/

/-- What a request to nest or un-nest is answered with when it is refused. -/
structure NestRefusal where
  status : Nat
  message : String
  deriving DecidableEq, Repr

/-- The group a request names. -/
def requested (groups : List LdapGroup) (name : String) : Except NestRefusal LdapGroup :=
  match Group.get groups name with
  | .ok group => .ok group
  | .error _ => .error ⟨404, "LDAP:" ++ name ++ " does not exists"⟩

/-- `PUT /api/group/:group/nested/:child`. -/
def putNested (base : GroupBase) (groups : List LdapGroup) (group child : String) :
    Except NestRefusal (List LdapGroup) := do
  let parentGroup ← requested groups group
  let childGroup ← requested groups child
  if parentGroup.dn = childGroup.dn then
    throw ⟨400, "A group cannot contain itself."⟩
  if wouldCycle base.maxNestingDepth groups group childGroup.dn then
    throw ⟨409, "\"" ++ child ++ "\" already contains \"" ++ group ++
      "\" — nesting them would create a loop."⟩
  match Group.addMember groups parentGroup childGroup.dn with
  | .ok nested => return nested
  | .error _ => throw ⟨409, "\"" ++ child ++ "\" is already nested in \"" ++ group ++ "\"."⟩

/-- Take a member value away from the entry with the group's DN.  One that is not there is
no error; an entry keeps at least one member. -/
def Group.removeMember (groups : List LdapGroup) (group : LdapGroup) (dn : String) :
    Option (List LdapGroup) :=
  if group.member.all fun member => lc member != lc dn then some groups
  else if group.member.all fun member => lc member == lc dn then none
  else some (groups.map fun other =>
    if lc other.dn == lc group.dn then
      { other with member := other.member.filter fun member => lc member != lc dn }
    else other)

/-- `DELETE /api/group/:group/nested/:child`. -/
def deleteNested (groups : List LdapGroup) (group child : String) :
    Except NestRefusal (List LdapGroup) := do
  let parentGroup ← requested groups group
  let childGroup ← requested groups child
  match Group.removeMember groups parentGroup childGroup.dn with
  | some left => return left
  | none => throw ⟨409, "\"" ++ child ++ "\" is the only member of \"" ++ group ++
      "\". A group must keep at least one member — add another first."⟩

/-- The operations that change how groups are nested. -/
inductive NestOperation where
  | putNested (group child : String)
  | deleteNested (group child : String)
  | nestGroup (childCn parentCn : String)

namespace NestOperation

/-- The tree after an operation; a refused one leaves it as it was. -/
def apply (base : GroupBase) : NestOperation → List LdapGroup → List LdapGroup
  | .putNested group child, groups => (Groups.putNested base groups group child).toOption.getD groups
  | .deleteNested group child, groups => (Groups.deleteNested groups group child).toOption.getD groups
  | .nestGroup childCn parentCn, groups => Groups.nestGroup base groups childCn parentCn

end NestOperation

/-! ## Links -/

variable {base : GroupBase} {groups : List LdapGroup}

instance {key above : String} : Decidable (MemberLink groups key above) :=
  decidable_of_iff _ memberLink_iff.symm

/-- A tree whose members all rank above their group has no loops. -/
theorem acyclic_of_rank (rank : String → Nat)
    (lower : ∀ group ∈ groups, ∀ member ∈ group.member, rank (lc group.dn) < rank (lc member)) :
    Acyclic (MemberLink groups) := by
  refine Library.Acyclic.of_rank rank fun key above link => ?_
  obtain ⟨group, inGroups, lists, rfl⟩ := memberLink_iff.mp link
  obtain ⟨member, inMember, isKey⟩ := List.any_eq_true.mp lists
  simp only [Bool.and_eq_true, beq_iff_eq] at isKey
  rw [← isKey.2]
  exact lower group inGroups member inMember

/-- A path up from a group is a path down to it. -/
theorem nestedPath_of_memberPath {child : LdapGroup} {above : String}
    (distinct : DistinctDns groups) (member : child ∈ groups)
    (path : ReflTransGen (MemberLink groups) (lc child.dn) above) :
    ReflTransGen (NestedLink groups) above (lc child.dn) := by
  have inTree : ∀ {key : String}, ReflTransGen (MemberLink groups) (lc child.dn) key →
      ∃ group ∈ groups, lc group.dn = key := by
    intro key path
    cases path with
    | refl => exact ⟨child, member, rfl⟩
    | tail _ last =>
        obtain ⟨group, inGroups, -, keyEq⟩ := memberLink_iff.mp last
        exact ⟨group, inGroups, keyEq⟩
  induction path with
  | refl => exact .refl
  | tail before last ih =>
      obtain ⟨group, inGroups, rfl⟩ := inTree before
      exact .head (nestedLink_of_memberLink distinct inGroups last) ih

/-! ## The guard -/

/-- The guard sees the loop: the parent is named as it is stored, no other entry has that
name, and few enough levels lead down to it from the child. -/
structure SeesLoop (base : GroupBase) (groups : List LdapGroup) (parentCn : String)
    (parent child : LdapGroup) : Prop where
  named : parent.cn = parentCn
  alone : ∀ other ∈ groups, other.cn = parentCn → lc other.dn = lc parent.dn
  short : ∃ length ≤ base.maxNestingDepth,
    Frontier.Walk (NestedLink groups) length (lc child.dn) (lc parent.dn)

theorem wouldCycle_of_seesLoop {parentCn : String} {parent child : LdapGroup}
    (distinct : DistinctDns groups) (parentIn : parent ∈ groups) (childIn : child ∈ groups)
    (sees : SeesLoop base groups parentCn parent child) :
    wouldCycle base.maxNestingDepth groups parentCn child.dn = true := by
  unfold wouldCycle
  cases found : groups.find? fun group => group.cn == parentCn with
  | none =>
      rw [List.find?_eq_none] at found
      exact absurd (beq_iff_eq.mpr sees.named) (found parent parentIn)
  | some other =>
      have sameCn : other.cn = parentCn := by simpa using List.find?_some found
      have sameDn := sees.alone other (List.mem_of_find?_eq_some found) sameCn
      dsimp only
      rw [sameDn, distinct.groupAt childIn]
      split
      · rfl
      · rename_i different
        obtain ⟨length, short, walk⟩ := sees.short
        obtain ⟨reached, inSearch, keyEq⟩ := Frontier.exists_mem_search_iff.mpr
          ⟨by simpa using different, length, short, walk⟩
        have reachedIn : ∀ {group}, group ∈ Frontier.search (nestedIn groups)
            (fun group => lc group.dn) base.maxNestingDepth [lc child.dn] [lc child.dn] →
            group ∈ groups := by
          intro group inSearch
          obtain ⟨-, _, _, _, _, last, -, isNested⟩ := Frontier.search_sound inSearch
          unfold nestedIn at isNested
          split at isNested
          · obtain ⟨value, -, atValue⟩ := List.mem_filterMap.mp isNested
            exact List.mem_of_find?_eq_some atValue
          · exact absurd isNested List.not_mem_nil
        have same : reached = parent :=
          List.inj_on_of_nodup_map distinct (reachedIn inSearch) parentIn keyEq
        -- a map by CN keeps one entry for the name
        have named : parent.cn ∈
            (closureDown base.maxNestingDepth child groups).nested.map (·.cn) :=
          cn_mem_foldl_setGroup.mpr (Or.inr (List.mem_map.mpr ⟨reached, inSearch, by rw [same]⟩))
        obtain ⟨kept, inNested, keptCn⟩ := List.mem_map.mp named
        refine List.any_eq_true.mpr ⟨kept, inNested, beq_iff_eq.mpr ?_⟩
        rcases mem_of_mem_foldl_setGroup inNested with none | later
        · exact absurd none List.not_mem_nil
        · exact sees.alone kept (reachedIn later) (keptCn.trans sees.named)

/-! ## One operation -/

/-- Where the operation would nest a group in one it already contains, the guard sees it. -/
def NestOperation.Guarded (base : GroupBase) : NestOperation → List LdapGroup → Prop
  | .putNested group child, groups => ∀ parentGroup childGroup,
      Group.get groups group = .ok parentGroup → Group.get groups child = .ok childGroup →
      parentGroup.dn ≠ childGroup.dn →
      ReflTransGen (NestedLink groups) (lc childGroup.dn) (lc parentGroup.dn) →
        SeesLoop base groups group parentGroup childGroup
  | .deleteNested _ _, _ => True
  | .nestGroup childCn parentCn, groups => ∀ parentGroup childGroup,
      Group.get groups parentCn = .ok parentGroup → Group.get groups childCn = .ok childGroup →
      ReflTransGen (NestedLink groups) (lc childGroup.dn) (lc parentGroup.dn) →
        SeesLoop base groups parentCn parentGroup childGroup

theorem mem_of_get {name : String} {group : LdapGroup} (found : Group.get groups name = .ok group) :
    group ∈ groups := by
  unfold Group.get at found
  split at found
  · rename_i known
    cases found
    exact List.mem_of_find?_eq_some known
  · cases found

/-- What an operation can do to the members of the entries. -/
theorem distinctDns_map {change : LdapGroup → LdapGroup} (distinct : DistinctDns groups)
    (sameDn : ∀ group, (change group).dn = group.dn) : DistinctDns (groups.map change) := by
  unfold DistinctDns at distinct ⊢
  rw [List.map_map]
  simpa only [Function.comp_def, sameDn] using distinct

/-- Adding a member keeps the tree free of loops when the parent is not below the child. -/
theorem acyclic_addMember {parent child : LdapGroup} {later : List LdapGroup}
    (distinct : DistinctDns groups) (acyclic : Acyclic (MemberLink groups))
    (parentIn : parent ∈ groups)
    (notBelow : ¬ ReflTransGen (NestedLink groups) (lc child.dn) (lc parent.dn))
    (added : Group.addMember groups parent child.dn = .ok later) :
    DistinctDns later ∧ Acyclic (MemberLink later) := by
  unfold Group.addMember at added
  split at added
  · cases added
  · cases added
    refine ⟨distinctDns_map distinct fun group => ?_, ?_⟩
    · split <;> rfl
    · refine Library.Acyclic.insert acyclic
        (fun path => notBelow (nestedPath_of_memberPath distinct parentIn path)) ?_
      intro key above link
      obtain ⟨changed, inLater, lists, rfl⟩ := memberLink_iff.mp link
      obtain ⟨group, inGroups, rfl⟩ := List.mem_map.mp inLater
      split at lists
      · rename_i isParent
        rw [if_pos isParent]
        obtain ⟨value, inMember, isKey⟩ := List.any_eq_true.mp lists
        rcases List.mem_append.mp inMember with old | new
        · exact Or.inl (memberLink_iff.mpr
            ⟨group, inGroups, List.any_eq_true.mpr ⟨value, old, isKey⟩, rfl⟩)
        · rw [List.mem_singleton.mp new] at isKey
          simp only [Bool.and_eq_true, beq_iff_eq] at isKey
          exact Or.inr ⟨isKey.2.symm, by simpa using isParent⟩
      · rename_i notParent
        rw [if_neg notParent]
        exact Or.inl (memberLink_iff.mpr ⟨group, inGroups, lists, rfl⟩)

/-- Taking a member away closes no loop. -/
theorem acyclic_removeMember {parent : LdapGroup} {dn : String} {later : List LdapGroup}
    (distinct : DistinctDns groups) (acyclic : Acyclic (MemberLink groups))
    (removed : Group.removeMember groups parent dn = some later) :
    DistinctDns later ∧ Acyclic (MemberLink later) := by
  unfold Group.removeMember at removed
  split at removed
  · cases removed
    exact ⟨distinct, acyclic⟩
  · split at removed
    · cases removed
    · cases removed
      refine ⟨distinctDns_map distinct fun group => ?_, Library.Acyclic.mono acyclic ?_⟩
      · split <;> rfl
      · intro key above link
        obtain ⟨changed, inLater, lists, rfl⟩ := memberLink_iff.mp link
        obtain ⟨group, inGroups, rfl⟩ := List.mem_map.mp inLater
        split at lists
        · rename_i isParent
          rw [if_pos isParent]
          obtain ⟨value, inMember, isKey⟩ := List.any_eq_true.mp lists
          exact memberLink_iff.mpr ⟨group, inGroups,
            List.any_eq_true.mpr ⟨value, List.mem_of_mem_filter inMember, isKey⟩, rfl⟩
        · rename_i notParent
          rw [if_neg notParent]
          exact memberLink_iff.mpr ⟨group, inGroups, lists, rfl⟩

theorem eq_of_requested {name : String} {group : LdapGroup}
    (found : requested groups name = .ok group) : Group.get groups name = .ok group := by
  unfold requested at found
  split at found
  · rename_i known
    cases found
    exact known
  · cases found

/-- A group that is nested is found, is not its parent, and passes the guard. -/
theorem putNested_ok {group child : String} {later : List LdapGroup}
    (put : putNested base groups group child = .ok later) :
    ∃ parentGroup childGroup, Group.get groups group = .ok parentGroup ∧
      Group.get groups child = .ok childGroup ∧ parentGroup.dn ≠ childGroup.dn ∧
        ¬ wouldCycle base.maxNestingDepth groups group childGroup.dn = true ∧
          Group.addMember groups parentGroup childGroup.dn = .ok later := by
  simp only [putNested, bind, Except.bind] at put
  split at put
  · cases put
  · rename_i parentGroup parentFound
    split at put
    · cases put
    · rename_i childGroup childFound
      split at put
      · cases put
      · rename_i different
        simp only [pure, Except.pure] at put
        split at put
        · cases put
        · rename_i unseen
          split at put
          · rename_i nested added
            cases put
            exact ⟨parentGroup, childGroup, eq_of_requested parentFound,
              eq_of_requested childFound, different, unseen, added⟩
          · cases put

theorem deleteNested_ok {group child : String} {later : List LdapGroup}
    (deleted : deleteNested groups group child = .ok later) :
    ∃ parentGroup dn, Group.removeMember groups parentGroup dn = some later := by
  simp only [deleteNested, bind, Except.bind] at deleted
  split at deleted
  · cases deleted
  · split at deleted
    · cases deleted
    · split at deleted
      · rename_i removed
        cases deleted
        exact ⟨_, _, removed⟩
      · cases deleted

/-- What provisioning nests has passed the guard as well. -/
theorem nestGroup_cases (base : GroupBase) (groups : List LdapGroup) (childCn parentCn : String) :
    nestGroup base groups childCn parentCn = groups ∨
      ∃ parentGroup childGroup, Group.get groups parentCn = .ok parentGroup ∧
        Group.get groups childCn = .ok childGroup ∧
          ¬ wouldCycle base.maxNestingDepth groups parentCn childGroup.dn = true ∧
            Group.addMember groups parentGroup childGroup.dn =
              .ok (nestGroup base groups childCn parentCn) := by
  unfold nestGroup
  simp only [bind, Except.bind]
  cases parentGot : Group.get groups parentCn with
  | error error => exact Or.inl rfl
  | ok parentGroup =>
      cases childGot : Group.get groups childCn with
      | error error => exact Or.inl rfl
      | ok childGroup =>
          dsimp only
          cases seen : wouldCycle base.maxNestingDepth groups parentCn childGroup.dn with
          | true => exact Or.inl rfl
          | false =>
              cases added : Group.addMember groups parentGroup childGroup.dn with
              | error error =>
                  left
                  simp
              | ok later =>
                  refine Or.inr ⟨parentGroup, childGroup, rfl, rfl, by simp [seen], ?_⟩
                  simp [added]

namespace NestOperation

/-- Step lemma: a guarded operation keeps the tree free of loops. -/
theorem acyclic_apply {operation : NestOperation} (distinct : DistinctDns groups)
    (acyclic : Acyclic (MemberLink groups)) (guarded : operation.Guarded base groups) :
    DistinctDns (operation.apply base groups) ∧
      Acyclic (MemberLink (operation.apply base groups)) := by
  cases operation with
  | putNested group child =>
      cases put : Groups.putNested base groups group child with
      | error refusal =>
          rw [apply, put]
          exact ⟨distinct, acyclic⟩
      | ok later =>
          rw [apply, put]
          obtain ⟨parent, nested, parentGot, childGot, different, unseen, added⟩ := putNested_ok put
          refine acyclic_addMember distinct acyclic (mem_of_get parentGot) ?_ added
          intro path
          exact unseen (wouldCycle_of_seesLoop distinct (mem_of_get parentGot)
            (mem_of_get childGot) (guarded parent nested parentGot childGot different path))
  | deleteNested group child =>
      cases deleted : Groups.deleteNested groups group child with
      | error refusal =>
          rw [apply, deleted]
          exact ⟨distinct, acyclic⟩
      | ok later =>
          rw [apply, deleted]
          obtain ⟨parent, dn, removed⟩ := deleteNested_ok deleted
          exact acyclic_removeMember distinct acyclic removed
  | nestGroup childCn parentCn =>
      rw [apply]
      rcases nestGroup_cases base groups childCn parentCn with
        same | ⟨parent, nested, parentGot, childGot, unseen, added⟩
      · rw [same]
        exact ⟨distinct, acyclic⟩
      · refine acyclic_addMember distinct acyclic (mem_of_get parentGot) ?_ added
        intro path
        exact unseen (wouldCycle_of_seesLoop distinct (mem_of_get parentGot)
          (mem_of_get childGot) (guarded parent nested parentGot childGot path))

/-- Run lemma: over a run of guarded operations no group comes to contain itself. -/
theorem acyclic_run {operations : List NestOperation} (distinct : DistinctDns groups)
    (acyclic : Acyclic (MemberLink groups))
    (guarded : ∀ step ∈ Runs.steps (apply base) operations groups,
      step.operation.Guarded base step.before) :
    ∀ step ∈ Runs.steps (apply base) operations groups, Acyclic (MemberLink step.after) := by
  intro step member
  refine (@Runs.forall_steps _ _ (apply base) operations groups
    (fun groups => DistinctDns groups ∧ Acyclic (MemberLink groups)) (Guarded base)
    (fun _ => True) ⟨distinct, acyclic⟩ guarded ?_ step member).2.1.2
  exact fun operation groups inv guarded => ⟨acyclic_apply inv.1 inv.2 guarded, trivial⟩

end NestOperation

/-! ### Chains of groups -/

private def levelBase : GroupBase where
  groupBase := "ou=groups"
  escapeDN := id
  maxNestingDepth := 10
  escapeDN_inj := fun same => same
  depth_pos := default_depth_pos

/-- Each group holds the next one and an administrator. -/
private def chainOf : List String → List LdapGroup
  | [] => []
  | [last] => [⟨levelBase.groupDn last, last, ["uid=root"]⟩]
  | cn :: next :: rest =>
      ⟨levelBase.groupDn cn, cn, ["uid=root", levelBase.groupDn next]⟩ :: chainOf (next :: rest)

private def twelve : List String := ["a", "b", "c", "d", "e", "f", "g", "h", "i", "j", "k", "l"]

private def keyOf (cn : String) : String := lc (levelBase.groupDn cn)

private theorem acyclic_chainOf_twelve : Acyclic (MemberLink (chainOf twelve)) :=
  acyclic_of_rank (fun key => (twelve.map keyOf).idxOf key) (by decide +kernel)

namespace NestOperation

/-- A chain of three is built, and its last group does not take in the first. -/
theorem acyclic_chain_of_three : List.Forall
    (fun step : Runs.Step NestOperation (List LdapGroup) => Acyclic (MemberLink step.after))
    (Runs.steps (apply levelBase) [.nestGroup "c" "b", .putNested "c" "a", .deleteNested "a" "b"]
      (chainOf ["a", "b"] ++ chainOf ["c"])) := by
  have aGot : Group.get (chainOf ["a", "b", "c"]) "a" =
      .ok ⟨keyOf "a", "a", ["uid=root", keyOf "b"]⟩ := by decide +kernel
  have cGot : ∀ tree ∈ [chainOf ["a", "b"] ++ chainOf ["c"], chainOf ["a", "b", "c"]],
      Group.get tree "c" = .ok ⟨keyOf "c", "c", ["uid=root"]⟩ := by decide +kernel
  have bGot : Group.get (chainOf ["a", "b"] ++ chainOf ["c"]) "b" =
      .ok ⟨keyOf "b", "b", ["uid=root"]⟩ := by decide +kernel
  have nested : NestOperation.apply levelBase (.nestGroup "c" "b")
      (chainOf ["a", "b"] ++ chainOf ["c"]) = chainOf ["a", "b", "c"] := by decide +kernel
  refine List.forall_iff_forall_mem.mpr (acyclic_run (by decide +kernel)
    (acyclic_of_rank (fun key => (["a", "b", "c"].map keyOf).idxOf key) (by decide +kernel)) ?_)
  simp only [Runs.steps, nested, List.forall_mem_cons]
  refine ⟨?_, ?_, trivial, List.forall_mem_nil _⟩
  · intro parent child parentGot childGot path
    rw [bGot] at parentGot
    rw [cGot _ (by simp)] at childGot
    cases parentGot
    cases childGot
    rcases ReflTransGen.cases_head path with same | ⟨below, ⟨group, inNested, -⟩, -⟩
    · exact absurd same (by decide +kernel)
    · have empty : nestedIn (chainOf ["a", "b"] ++ chainOf ["c"]) (lc (keyOf "c")) = [] := by
        decide +kernel
      exact absurd inNested (by rw [empty]; exact List.not_mem_nil)
  · intro parent child parentGot childGot different path
    rw [cGot _ (by simp)] at parentGot
    rw [aGot] at childGot
    cases parentGot
    cases childGot
    refine ⟨rfl, by decide +kernel, 2, by decide, ?_⟩
    have first : NestedLink (chainOf ["a", "b", "c"]) (keyOf "a") (keyOf "b") := by
      unfold NestedLink Frontier.Step
      decide +kernel
    have second : NestedLink (chainOf ["a", "b", "c"]) (keyOf "b") (keyOf "c") := by
      unfold NestedLink Frontier.Step
      decide +kernel
    have walk := Frontier.Walk.move first (.single second)
    have same : ∀ cn ∈ ["a", "c"], lc (keyOf cn) = keyOf cn := by decide +kernel
    rwa [same "a" (by simp), same "c" (by simp)]

/-- A loop through twelve groups is not seen, and neither is one where the request spells
the parent otherwise. -/
theorem not_acyclic_nested :
    (¬ ∀ (base : GroupBase) (groups : List LdapGroup), DistinctDns groups →
      Acyclic (MemberLink groups) →
      Acyclic (MemberLink ((NestOperation.putNested "l" "a").apply base groups))) ∧
    ¬ ∀ (base : GroupBase) (groups : List LdapGroup), DistinctDns groups →
      Acyclic (MemberLink groups) →
      Acyclic (MemberLink ((NestOperation.nestGroup "a" "B").apply base groups)) := by
  constructor
  · intro always
    have added : MemberLink ((NestOperation.putNested "l" "a").apply levelBase (chainOf twelve))
        (keyOf "a") (keyOf "l") := by decide +kernel
    have chain : List.IsChain (MemberLink ((NestOperation.putNested "l" "a").apply levelBase
        (chainOf twelve))) (twelve.reverse.map keyOf) := by decide +kernel
    have path := List.relationReflTransGen_of_exists_isChain_cons _ chain rfl
    exact always levelBase (chainOf twelve) (by decide +kernel) acyclic_chainOf_twelve _
      (TransGen.head' added path)
  · intro always
    have added : MemberLink ((NestOperation.nestGroup "a" "B").apply levelBase
        (chainOf ["a", "b"])) (keyOf "a") (keyOf "b") := by decide +kernel
    have nested : MemberLink ((NestOperation.nestGroup "a" "B").apply levelBase
        (chainOf ["a", "b"])) (keyOf "b") (keyOf "a") := by decide +kernel
    exact always levelBase (chainOf ["a", "b"]) (by decide +kernel)
      (acyclic_of_rank (fun key => (["a", "b"].map keyOf).idxOf key) (by decide +kernel)) _
      (TransGen.head added (.single nested))

end NestOperation

end ThetaDirectory.Groups
