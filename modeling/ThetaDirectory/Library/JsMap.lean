import Mathlib.Data.List.AList

/-!
# Maps with text keys

JavaScript maps and plain objects used as maps, as association lists without
repeated keys.
-/

namespace ThetaDirectory.Library

/-- A map from text keys to values of one type. -/
abbrev JsMap (β : Type*) := AList fun _ : String => β

namespace JsMap

variable {β : Type*}

theorem lookup_insert (map : JsMap β) (key other : String) (value : β) :
    (map.insert key value).lookup other = if other = key then some value else map.lookup other := by
  split
  · rename_i same
    rw [same, AList.lookup_insert]
  · rename_i different
    exact AList.lookup_insert_ne different

theorem lookup_union (map base : JsMap β) (key : String) :
    (map ∪ base).lookup key = (map.lookup key).or (base.lookup key) := by
  by_cases present : key ∈ map
  · obtain ⟨value, found⟩ := Option.isSome_iff_exists.mp (AList.lookup_isSome.mpr present)
    rw [AList.lookup_union_left present, found]
    rfl
  · rw [AList.lookup_union_right present, AList.lookup_eq_none.mpr present]
    rfl

theorem mem_iff_lookup {map : JsMap β} {key : String} :
    key ∈ map ↔ ∃ value, map.lookup key = some value := by
  rw [← AList.lookup_isSome, Option.isSome_iff_exists]

end JsMap

end ThetaDirectory.Library
