import Mathlib.Data.List.Dedup
import Mathlib.Data.List.Perm.Subperm
import Mathlib.Logic.Relation

/-!
# Depth-first order

A walk that goes as far as it can along the first successor before it tries the next one, with
the set of keys it has seen handed on.  A search that stops at the first key with an answer
gives the first answer in this order.
-/

namespace ThetaDirectory.Library

namespace DepthFirst

variable {κ β : Type*}

/-! ## Lists of seen keys -/

/-- A walk adds keys of the property in front, each once. -/
structure Adds (holds : κ → Prop) (seen seen' : List κ) : Prop where
  front : ∃ fresh, seen' = fresh ++ seen ∧ ∀ key ∈ fresh, holds key
  nodup : seen.Nodup → seen'.Nodup

namespace Adds

variable {holds : κ → Prop} {seen middle seen' : List κ}

theorem refl (holds : κ → Prop) (seen : List κ) : Adds holds seen seen :=
  ⟨⟨[], rfl, List.forall_mem_nil _⟩, id⟩

theorem trans (first : Adds holds seen middle) (later : Adds holds middle seen') :
    Adds holds seen seen' := by
  obtain ⟨front, rfl, inFront⟩ := first.front
  obtain ⟨more, rfl, inMore⟩ := later.front
  refine ⟨⟨more ++ front, (List.append_assoc _ _ _).symm, ?_⟩, later.nodup ∘ first.nodup⟩
  exact List.forall_mem_append.mpr ⟨inMore, inFront⟩

theorem mono {other : κ → Prop} (adds : Adds holds seen seen')
    (weaker : ∀ key, holds key → other key) : Adds other seen seen' := by
  obtain ⟨front, same, inFront⟩ := adds.front
  exact ⟨⟨front, same, fun key member => weaker key (inFront key member)⟩, adds.nodup⟩

theorem suffix (adds : Adds holds seen seen') : seen <:+ seen' := by
  obtain ⟨front, rfl, -⟩ := adds.front
  exact List.suffix_append front seen

theorem new (adds : Adds holds seen seen') {key : κ} (member : key ∈ seen') :
    key ∈ seen ∨ holds key := by
  obtain ⟨front, rfl, inFront⟩ := adds.front
  rcases List.mem_append.mp member with fresh | old
  · exact Or.inr (inFront key fresh)
  · exact Or.inl old

end Adds

/-! ## First successors -/

/-- First successors lead from the key along the others to the first one with an answer. -/
inductive Leads (next : κ → List κ) (answer : κ → Option β) : κ → List κ → β → Prop where
  | here {key : κ} {value : β} (answers : answer key = some value) : Leads next answer key [] value
  | onward {key child : κ} {rest : List κ} {value : β} (silent : answer key = none)
      (isFirst : (next key).head? = some child) (later : Leads next answer child rest value) :
      Leads next answer key (child :: rest) value

namespace Leads

variable {next : κ → List κ} {answer : κ → Option β} {key : κ} {rest : List κ} {value : β}

theorem unique (leads : Leads next answer key rest value) {other : List κ} {value' : β}
    (also : Leads next answer key other value') : rest = other := by
  induction leads generalizing other with
  | here answers =>
      cases also with
      | here _ => rfl
      | onward silent _ _ => cases answers.symm.trans silent
  | onward silent isFirst later ih =>
      cases also with
      | here answers => cases answers.symm.trans silent
      | onward _ isFirst' later' =>
          cases Option.some.inj (isFirst.symm.trans isFirst')
          rw [ih later']

theorem from_mem (leads : Leads next answer key rest value) {other : κ} (member : other ∈ rest) :
    ∃ fewer, Leads next answer other fewer value ∧ fewer.length < rest.length := by
  induction leads with
  | here _ => cases member
  | onward _ _ later ih =>
      rcases List.mem_cons.mp member with rfl | behind
      · exact ⟨_, later, Nat.lt_succ_self _⟩
      · obtain ⟨fewer, leads, less⟩ := ih behind
        exact ⟨fewer, leads, Nat.lt_succ_of_lt less⟩

theorem nodup (leads : Leads next answer key rest value) : (key :: rest).Nodup := by
  induction leads with
  | here _ => exact List.nodup_singleton _
  | onward silent isFirst later ih =>
      refine List.nodup_cons.mpr ⟨fun again => ?_, ih⟩
      have whole := Leads.onward silent isFirst later
      obtain ⟨fewer, leads, less⟩ := whole.from_mem again
      rw [whole.unique leads] at less
      exact absurd less (Nat.lt_irrefl _)

theorem isChain (leads : Leads next answer key rest value) :
    (key :: rest).IsChain fun start finish => (next start).head? = some finish := by
  induction leads with
  | here _ => exact .singleton _
  | onward _ isFirst _ ih => exact List.isChain_cons_cons.mpr ⟨isFirst, ih⟩

theorem findSome (leads : Leads next answer key rest value) :
    (key :: rest).findSome? answer = some value := by
  induction leads with
  | here answers => rw [List.findSome?_cons, answers]
  | onward silent _ _ ih =>
      rw [List.findSome?_cons, silent]
      exact ih

/-- Every key but the last one is a source. -/
theorem sources (leads : Leads next answer key rest value)
    {keys : List κ} (sources : ∀ key, next key ≠ [] → key ∈ keys) :
    (key :: rest).dropLast ⊆ keys := by
  induction leads with
  | here _ => exact List.nil_subset _
  | onward _ isFirst _ ih =>
      rw [List.dropLast_cons_of_ne_nil (List.cons_ne_nil _ _)]
      refine List.cons_subset.mpr ⟨sources _ fun none => ?_, ih⟩
      rw [none] at isFirst
      cases isFirst

end Leads

/-! ## Walk and search -/

variable [DecidableEq κ] (next : κ → List κ)

/-- The keys seen after a walk from a key, the latest first. -/
def walk : Nat → κ → List κ → List κ
  | 0, _, seen => seen
  | depth + 1, key, seen =>
      if key ∈ seen then seen
      else (next key).foldl (fun seen child => walk depth child seen) (key :: seen)

/-- A walk along several keys, one after the other. -/
def walkAll (depth : Nat) (keys seen : List κ) : List κ :=
  keys.foldl (fun seen child => walk next depth child seen) seen

/-- The keys in the order of a walk from one key. -/
def order (depth : Nat) (key : κ) : List κ := (walk next depth key []).reverse

/-- The search for an answer: each key is asked when it is seen first. -/
def visit (answer : κ → Option β) : Nat → κ → List κ → Option β × List κ
  | 0, _, seen => (none, seen)
  | depth + 1, key, seen =>
      if key ∈ seen then (none, seen)
      else
        match answer key with
        | some value => (some value, key :: seen)
        | none => (next key).foldl (fun (state : Option β × List κ) child =>
            if state.1.isSome then state else visit answer depth child state.2) (none, key :: seen)

/-- The search along several keys, up to the first answer. -/
def visitAll (answer : κ → Option β) (depth : Nat) (keys : List κ) (state : Option β × List κ) :
    Option β × List κ :=
  keys.foldl (fun state child =>
    if state.1.isSome then state else visit next answer depth child state.2) state

/-- One key is a successor of the other. -/
def Step (start finish : κ) : Prop := finish ∈ next start

variable {next}

theorem walk_seen {depth : Nat} {key : κ} {seen : List κ} (old : key ∈ seen) :
    walk next depth key seen = seen := by
  cases depth with
  | zero => rfl
  | succ depth => rw [walk, if_pos old]

theorem walk_fresh {depth : Nat} {key : κ} {seen : List κ} (fresh : key ∉ seen) :
    walk next (depth + 1) key seen = walkAll next depth (next key) (key :: seen) := by
  rw [walk, if_neg fresh, walkAll]

theorem walkAll_cons {depth : Nat} {key : κ} {keys seen : List κ} :
    walkAll next depth (key :: keys) seen = walkAll next depth keys (walk next depth key seen) :=
  rfl

/-- A walk adds what it can reach. -/
theorem walk_adds (depth : Nat) (key : κ) (seen : List κ) :
    Adds (Relation.ReflTransGen (Step next) key) seen (walk next depth key seen) := by
  induction depth generalizing key seen with
  | zero => exact .refl _ seen
  | succ depth ih =>
      by_cases old : key ∈ seen
      · rw [walk_seen old]
        exact .refl _ seen
      · rw [walk_fresh old]
        have along (keys : List κ) (children : keys ⊆ next key) (seen : List κ) :
            Adds (Relation.ReflTransGen (Step next) key) seen (walkAll next depth keys seen) := by
          induction keys generalizing seen with
          | nil => exact .refl _ seen
          | cons child keys later =>
              have isChild : Step next key child := children List.mem_cons_self
              rw [walkAll_cons]
              refine .trans ((ih child seen).mono fun _ path => .head isChild path) ?_
              exact later (List.subset_of_cons_subset children) _
        have first : Adds (Relation.ReflTransGen (Step next) key) seen (key :: seen) :=
          ⟨⟨[key], rfl, List.forall_mem_singleton.mpr .refl⟩, fun nodup => nodup.cons old⟩
        exact first.trans (along _ (List.Subset.refl _) _)

theorem walkAll_suffix (depth : Nat) (keys seen : List κ) :
    seen <:+ walkAll next depth keys seen := by
  induction keys generalizing seen with
  | nil => exact List.suffix_refl seen
  | cons key keys ih => exact (walk_adds depth key seen).suffix.trans (ih _)

/-! ## Enough depth -/

/-- How many of the keys are not seen yet. -/
def unseen (keys seen : List κ) : Nat := (keys.filter (· ∉ seen)).length

variable {keys : List κ}

theorem unseen_mono (keys : List κ) {seen seen' : List κ} (subset : seen ⊆ seen') :
    unseen keys seen' ≤ unseen keys seen := by
  unfold unseen
  rw [← List.countP_eq_length_filter, ← List.countP_eq_length_filter]
  apply List.countP_mono_left
  intro key _ fresh
  simp only [decide_not, Bool.not_eq_eq_eq_not, Bool.not_true, decide_eq_false_iff_not] at fresh ⊢
  exact fun old => fresh (subset old)

theorem unseen_cons_lt {key : κ} {seen : List κ} (member : key ∈ keys) (fresh : key ∉ seen) :
    unseen keys (key :: seen) < unseen keys seen := by
  have fewer : (keys.filter (· ∉ key :: seen)) = (keys.filter (· ∉ seen)).filter (· ≠ key) := by
    rw [List.filter_filter]
    apply List.filter_congr
    intro other _
    simp [List.mem_cons, not_or]
  unfold unseen
  rw [fewer]
  apply List.length_filter_lt_length_iff_exists.mpr
  exact ⟨key, List.mem_filter.mpr ⟨member, by simpa using fresh⟩, by simp⟩

theorem unseen_nil_le (keys : List κ) : unseen keys [] ≤ keys.length := List.length_filter_le _ _

/-- A walk with enough depth goes on from every key it adds. -/
theorem walk_closed (sources : ∀ key, next key ≠ [] → key ∈ keys) {depth : Nat} {key : κ}
    {seen : List κ} (enough : unseen keys seen < depth) :
    key ∈ walk next depth key seen ∧ ∀ start ∈ walk next depth key seen, start ∉ seen →
      next start ⊆ walk next depth key seen := by
  induction depth generalizing key seen with
  | zero => exact absurd enough (Nat.not_lt_zero _)
  | succ depth ih =>
      by_cases old : key ∈ seen
      · rw [walk_seen old]
        exact ⟨old, fun start member fresh => absurd member fresh⟩
      · rw [walk_fresh old]
        have along (children : List κ) (sources : children ≠ [] → key ∈ keys) (seen' : List κ)
            (subset : key :: seen ⊆ seen') :
            children ⊆ walkAll next depth children seen' ∧
              ∀ start ∈ walkAll next depth children seen', start ∉ seen' →
                next start ⊆ walkAll next depth children seen' := by
          induction children generalizing seen' with
          | nil => exact ⟨List.nil_subset _, fun start member fresh => absurd member fresh⟩
          | cons child children later =>
              have inKeys := sources (List.cons_ne_nil _ _)
              have less := unseen_mono keys subset
              have lower : unseen keys seen' < depth :=
                Nat.lt_of_le_of_lt less (by have := unseen_cons_lt inKeys old; omega)
              obtain ⟨reached, closed⟩ := @ih child seen' lower
              have onward := (@walk_adds κ _ next depth child seen').suffix.subset
              obtain ⟨rest, closedRest⟩ :=
                later (fun _ => inKeys) _ (List.Subset.trans subset onward)
              have kept := (@walkAll_suffix κ _ next depth children
                (walk next depth child seen')).subset
              rw [walkAll_cons]
              refine ⟨List.cons_subset.mpr ⟨kept reached, rest⟩, ?_⟩
              intro start member fresh
              by_cases early : start ∈ walk next depth child seen'
              · exact List.Subset.trans (closed start early fresh) kept
              · exact closedRest start member early
        obtain ⟨children, closed⟩ := along (next key) (sources key) _ (List.Subset.refl _)
        have kept := (@walkAll_suffix κ _ next depth (next key) (key :: seen)).subset
        refine ⟨kept List.mem_cons_self, ?_⟩
        intro start member fresh
        by_cases same : start = key
        · rw [same]
          exact children
        · refine closed start member fun early => ?_
          rcases List.mem_cons.mp early with first | inSeen
          · exact same first
          · exact fresh inSeen

/-- With enough depth the order lists what can be reached. -/
theorem mem_order_iff (sources : ∀ key, next key ≠ [] → key ∈ keys) {depth : Nat} {key other : κ}
    (enough : keys.length < depth) :
    other ∈ order next depth key ↔ Relation.ReflTransGen (Step next) key other := by
  obtain ⟨start, closed⟩ := @walk_closed κ _ next keys sources depth key []
    (Nat.lt_of_le_of_lt (unseen_nil_le keys) enough)
  rw [order, List.mem_reverse]
  constructor
  · intro member
    exact ((walk_adds depth key []).new member).resolve_left List.not_mem_nil
  · intro path
    induction path with
    | refl => exact start
    | tail _ step ih => exact closed _ ih List.not_mem_nil step

theorem nodup_order (depth : Nat) (key : κ) : (order next depth key).Nodup :=
  List.nodup_reverse.mpr ((walk_adds depth key []).nodup List.nodup_nil)

/-- The order starts with the key itself. -/
theorem order_eq_cons (depth : Nat) (key : κ) :
    order next (depth + 1) key = key :: (order next (depth + 1) key).tail := by
  obtain ⟨more, same⟩ := @walkAll_suffix κ _ next depth (next key) [key]
  rw [order, walk_fresh List.not_mem_nil, ← same, List.reverse_append]
  rfl

/-- The rest of the order are successors. -/
theorem exists_of_mem_tail_order {depth : Nat} {key other : κ}
    (member : other ∈ (order next (depth + 1) key).tail) : ∃ start, other ∈ next start := by
  have split := @order_eq_cons κ _ next depth key
  have nodup := @nodup_order κ _ next (depth + 1) key
  rw [split] at nodup
  have different : other ≠ key := fun same => (List.nodup_cons.mp nodup).1 (same ▸ member)
  have listed : other ∈ order next (depth + 1) key := split ▸ List.mem_cons_of_mem _ member
  have path := ((walk_adds (depth + 1) key []).new (List.mem_reverse.mp listed)).resolve_left
    List.not_mem_nil
  rcases Relation.ReflTransGen.cases_tail path with same | last
  · exact absurd same different
  · obtain ⟨start, -, step⟩ := last
    exact ⟨start, step⟩

/-! ## The first answer -/

variable {answer : κ → Option β}

theorem visit_seen {depth : Nat} {key : κ} {seen : List κ} (old : key ∈ seen) :
    visit next answer depth key seen = (none, seen) := by
  cases depth with
  | zero => rfl
  | succ depth => rw [visit, if_pos old]

theorem visit_answer {depth : Nat} {key : κ} {seen : List κ} {value : β} (fresh : key ∉ seen)
    (answers : answer key = some value) :
    visit next answer (depth + 1) key seen = (some value, key :: seen) := by
  rw [visit, if_neg fresh, answers]

theorem visit_onward {depth : Nat} {key : κ} {seen : List κ} (fresh : key ∉ seen)
    (silent : answer key = none) : visit next answer (depth + 1) key seen =
      visitAll next answer depth (next key) (none, key :: seen) := by
  rw [visit, if_neg fresh, silent, visitAll]

theorem visitAll_some {depth : Nat} {keys seen : List κ} {value : β} :
    visitAll next answer depth keys (some value, seen) = (some value, seen) := by
  induction keys with
  | nil => rfl
  | cons key keys ih => exact ih

/-- A search gives the first answer among the keys its walk adds. -/
theorem visit_spec (answer : κ → Option β) (depth : Nat) (key : κ) (seen : List κ) :
    ∃ fresh, walk next depth key seen = fresh ++ seen ∧
      (visit next answer depth key seen).1 = fresh.reverse.findSome? answer ∧
      ((visit next answer depth key seen).1 = none →
        (visit next answer depth key seen).2 = fresh ++ seen) := by
  induction depth generalizing key seen with
  | zero => exact ⟨[], rfl, rfl, fun _ => rfl⟩
  | succ depth ih =>
      by_cases old : key ∈ seen
      · rw [walk_seen old, visit_seen old]
        exact ⟨[], rfl, rfl, fun _ => rfl⟩
      · have along (keys seen : List κ) : ∃ fresh, walkAll next depth keys seen = fresh ++ seen ∧
            (visitAll next answer depth keys (none, seen)).1 = fresh.reverse.findSome? answer ∧
            ((visitAll next answer depth keys (none, seen)).1 = none →
              (visitAll next answer depth keys (none, seen)).2 = fresh ++ seen) := by
          induction keys generalizing seen with
          | nil => exact ⟨[], rfl, rfl, fun _ => rfl⟩
          | cons child keys later =>
              obtain ⟨front, walked, first, silent⟩ := ih child seen
              obtain ⟨more, walkedOn, firstOn, silentOn⟩ := later (front ++ seen)
              refine ⟨more ++ front, ?_, ?_⟩
              · rw [walkAll_cons, walked, walkedOn, List.append_assoc]
              · have unfolded : visitAll next answer depth (child :: keys) (none, seen) =
                    visitAll next answer depth keys (visit next answer depth child seen) := rfl
                rw [List.reverse_append, List.findSome?_append, ← first, unfolded]
                cases found : visit next answer depth child seen with
                | mk result seen' =>
                    rw [found] at silent
                    cases result with
                    | some value =>
                        rw [visitAll_some]
                        exact ⟨rfl, fun none => nomatch none⟩
                    | none =>
                        have same : seen' = front ++ seen := silent rfl
                        rw [same, Option.none_or, List.append_assoc]
                        exact ⟨firstOn, silentOn⟩
        obtain ⟨front, walked, first, silent⟩ := along (next key) (key :: seen)
        refine ⟨front ++ [key], ?_, ?_⟩
        · rw [walk_fresh old, walked, List.append_assoc, List.singleton_append]
        · rw [List.reverse_append, List.reverse_singleton, List.singleton_append,
            List.findSome?_cons]
          cases answers : answer key with
          | some value =>
              rw [visit_answer old answers]
              exact ⟨rfl, fun none => nomatch none⟩
          | none =>
              rw [visit_onward old answers, List.append_assoc, List.singleton_append]
              exact ⟨first, silent⟩

theorem visit_some {depth : Nat} {key : κ} {seen : List κ} {value : β}
    (found : (visit next answer depth key seen).1 = some value) :
    ∃ other, answer other = some value := by
  obtain ⟨fresh, -, first, -⟩ := @visit_spec κ β _ next answer depth key seen
  obtain ⟨other, -, answers⟩ := List.exists_of_findSome?_eq_some (first.symm.trans found)
  exact ⟨other, answers⟩

/-- A search that finds nothing has asked the keys it adds. -/
theorem visit_none {depth : Nat} {key : κ} {seen : List κ}
    (nothing : (visit next answer depth key seen).1 = none) :
    seen <:+ (visit next answer depth key seen).2 ∧
      ∀ other ∈ (visit next answer depth key seen).2, other ∈ seen ∨ answer other = none := by
  obtain ⟨fresh, -, first, rest⟩ := @visit_spec κ β _ next answer depth key seen
  rw [rest nothing]
  refine ⟨List.suffix_append _ _, List.forall_mem_append.mpr ⟨?_, fun _ old => Or.inl old⟩⟩
  intro other member
  have silent := List.findSome?_eq_none_iff.mp (first.symm.trans nothing)
  exact Or.inr (silent other (List.mem_reverse.mpr member))

theorem visit_nil (answer : κ → Option β) (depth : Nat) (key : κ) :
    (visit next answer depth key []).1 = (order next depth key).findSome? answer := by
  obtain ⟨fresh, walked, first, -⟩ := @visit_spec κ β _ next answer depth key []
  rw [first, order, walked, List.append_nil]

/-- The order starts with the keys along first successors, as long as none comes twice. -/
theorem walk_first {depth : Nat} {key : κ} {rest seen : List κ}
    (chain : (key :: rest).IsChain fun start finish => (next start).head? = some finish)
    (nodup : (key :: rest).Nodup) (fresh : ∀ other ∈ key :: rest, other ∉ seen)
    (enough : rest.length < depth) :
    (key :: rest).reverse ++ seen <:+ walk next depth key seen := by
  induction rest generalizing depth key seen with
  | nil =>
      cases depth with
      | zero => exact absurd enough (Nat.not_lt_zero _)
      | succ depth =>
          rw [walk_fresh (fresh key List.mem_cons_self)]
          exact walkAll_suffix depth (next key) (key :: seen)
  | cons child rest ih =>
      cases depth with
      | zero => exact absurd enough (Nat.not_lt_zero _)
      | succ depth =>
          obtain ⟨isFirst, chain⟩ := List.isChain_cons_cons.mp chain
          obtain ⟨notLater, nodup⟩ := List.nodup_cons.mp nodup
          obtain ⟨others, children⟩ := List.head?_eq_some_iff.mp isFirst
          have further : ∀ other ∈ child :: rest, other ∉ key :: seen := by
            intro other member
            apply List.not_mem_cons_of_ne_of_not_mem
            · exact fun same => notLater (same ▸ member)
            · exact fresh other (List.mem_cons_of_mem _ member)
          have below := ih chain nodup further (Nat.lt_of_succ_lt_succ enough)
          rw [walk_fresh (fresh key List.mem_cons_self), children, walkAll_cons,
            List.reverse_cons, List.append_assoc, List.singleton_append]
          exact below.trans (walkAll_suffix depth others _)

namespace Leads

variable {key : κ} {rest : List κ} {value : β}

/-- A search with enough depth gives the answer first successors lead to. -/
theorem findSome_order (leads : Leads next answer key rest value)
    (allSources : ∀ key, next key ≠ [] → key ∈ keys) {depth : Nat} (enough : keys.length < depth) :
    (order next depth key).findSome? answer = some value := by
  have short : rest.length ≤ keys.length := by
    have each := leads.nodup.sublist (List.dropLast_sublist _)
    simpa using (List.Nodup.subperm each (leads.sources allSources)).length_le
  obtain ⟨more, same⟩ := walk_first leads.isChain leads.nodup
    (fun _ _ => List.not_mem_nil) (Nat.lt_of_le_of_lt short enough)
  rw [order, ← same, List.append_nil, List.reverse_append, List.reverse_reverse,
    List.findSome?_append, leads.findSome, Option.some_or]

end Leads

end DepthFirst

end ThetaDirectory.Library
