import ThetaDirectory.Library.JsonText

/-!
# Signatures of agent commands

`canonicalize`, `signPayload` and the envelope of `sendCommand` of `utils/agent_manager.js`: the
bytes signed for a high-risk command, and the commands they are signed for.
-/

namespace ThetaDirectory.Agents

open Library Utf16 Properties JsonText

def signature : Units := ofString "signature"

/-- The key that sets the prototype of an object and no property. -/
def proto : Units := ofString "__proto__"

/-- The properties of `sorted` in `sortObj`, in the order they are set. -/
def sortedFields (fields : List (Units × Json)) : List (Units × Json) :=
  (((ownFields fields).filter (·.1 != signature)).mergeSort leKey).filter (·.1 != proto)

mutual

/-- `sortObj` of `canonicalize` -/
def sortObj : Json → Json
  | .arr items => .arr (sortObjItems items)
  | .obj fields => .obj (sortedFields (sortObjFields fields))
  | .null => .null
  | .bool value => .bool value
  | .num value => .num value
  | .str value => .str value

def sortObjItems : List Json → List Json
  | [] => []
  | item :: items => sortObj item :: sortObjItems items

def sortObjFields : List (Units × Json) → List (Units × Json)
  | [] => []
  | (key, value) :: fields => (key, sortObj value) :: sortObjFields fields

end

def canonicalize (payload : Json) : List Char := stringify (sortObj payload)

/-- The bytes that `signPayload` signs. -/
def canonicalBytes (payload : Json) : ByteArray := (String.ofList (canonicalize payload)).toUTF8

/-- What a spread copies. -/
def spread : Json → List (Units × Json)
  | .obj fields => ownFields fields
  | .arr items => items.zipIdx.map fun (item, index) => (ofString (toString index), item)
  | .str text => text.zipIdx.map fun (unit, index) => (ofString (toString index), .str [unit])
  | .null | .bool _ | .num _ => []

/-- The type and payload that `sendCommand` is called with. -/
structure Command where
  commandType : Units
  payload : Json

namespace Command

/-- The payload that is sent, without its signature. -/
def finalPayload (command : Command) : Json := .obj ((spread command.payload).foldl assign [])

def envelope (command : Command) : Json :=
  .obj ((spread command.finalPayload).foldl assign
    [(ofString "type", .str command.commandType)])

def signedBytes (command : Command) : ByteArray := canonicalBytes command.envelope

end Command

/-! ## What is signed -/

/-- A path that leads through no key that is left out. -/
def Signed (path : List Step) : Prop := .key signature ∉ path ∧ .key proto ∉ path

/-- Equal up to the order of keys and what stands under the keys that are left out. -/
def Alike (value other : Json) : Prop := ∀ path, Signed path → look path value = look path other

variable {fields : List (Units × Json)} {key : Units} {path : List Step} {step : Step}

theorem signed_nil : Signed [] := ⟨List.not_mem_nil, List.not_mem_nil⟩

theorem signed_cons :
    Signed (step :: path) ↔ (step ≠ .key signature ∧ step ≠ .key proto) ∧ Signed path := by
  constructor
  · intro signed
    obtain ⟨noSignature, noProto⟩ := signed
    rw [List.mem_cons, not_or] at noSignature noProto
    exact ⟨⟨noSignature.1 ∘ Eq.symm, noProto.1 ∘ Eq.symm⟩, noSignature.2, noProto.2⟩
  · intro parts
    obtain ⟨⟨notSignature, notProto⟩, noSignature, noProto⟩ := parts
    constructor
    · exact List.not_mem_cons_of_ne_of_not_mem notSignature.symm noSignature
    · exact List.not_mem_cons_of_ne_of_not_mem notProto.symm noProto

theorem lookup_sortedFields (fields : List (Units × Json)) (key : Units) :
    (sortedFields fields).lookup key =
      if key ≠ signature ∧ key ≠ proto then fields.lookup key else none := by
  have nodup : (keys ((ownFields fields).filter (·.1 != signature))).Nodup :=
    (nodup_ownFields fields).sublist (List.filter_sublist.map _)
  have sorted : (((ownFields fields).filter (·.1 != signature)).mergeSort leKey).lookup key =
      if key ≠ signature then fields.lookup key else none := by
    rw [← lookup_perm (List.mergeSort_perm _ _).symm nodup,
      lookup_filter fun key => key != signature, lookup_ownFields]
    simp only [bne_iff_ne]
  rw [sortedFields, lookup_filter fun key => key != proto, sorted]
  simp only [bne_iff_ne]
  split <;> split <;> simp_all

theorem pairwise_sortedFields (fields : List (Units × Json)) :
    (sortedFields fields).Pairwise fun field other => leKey field other = true :=
  (pairwise_sorted _).sublist List.filter_sublist

theorem sortObjItems_eq (items : List Json) : sortObjItems items = items.map sortObj := by
  induction items with
  | nil => rfl
  | cons item items ih => rw [sortObjItems, ih, List.map_cons]

theorem sortObjFields_eq (fields : List (Units × Json)) :
    sortObjFields fields = mapValues sortObj fields := by
  induction fields with
  | nil => rfl
  | cons field fields ih => exact congrArg _ ih

theorem look_sortObj (value : Json) (signed : Signed path) :
    look path (sortObj value) = look path value := by
  induction value using Json.inductionOn generalizing path with
  | null | bool _ | num _ | str _ => simp only [sortObj]
  | arr items ih =>
      rw [sortObj, sortObjItems_eq]
      cases path with
      | nil => exact congrArg (some ∘ Shape.arr) (List.length_map sortObj)
      | cons step path =>
          cases step with
          | key _ => rfl
          | index position =>
              rw [look, look, List.getElem?_map]
              cases found : items[position]? with
              | none => rfl
              | some item => exact ih item (List.mem_of_getElem? found) (signed_cons.mp signed).2
  | obj fields ih =>
      rw [sortObj, sortObjFields_eq]
      cases path with
      | nil => rfl
      | cons step path =>
          cases step with
          | index _ => rfl
          | key key =>
              obtain ⟨⟨notSignature, notProto⟩, rest⟩ := signed_cons.mp signed
              have kept : key ≠ signature ∧ key ≠ proto :=
                ⟨fun same => notSignature (congrArg _ same), fun same => notProto (congrArg _ same)⟩
              rw [look, look, lookup_sortedFields, if_pos kept, lookup_mapValues]
              cases found : fields.lookup key with
              | none => rfl
              | some value => exact ih (key, value) (mem_of_lookup found) rest

/-- Alike values have one order. -/
theorem ordered_sortObj (value : Json) :
    ∀ other, Alike value other → ordered (sortObj value) = ordered (sortObj other) := by
  induction value using Json.inductionOn with
  | null | bool _ | num _ | str _ =>
      intro other alike
      have shapes := Option.some.inj (alike [] signed_nil)
      cases other <;> first | cases shapes; rfl | cases shapes
  | arr items ih =>
      intro other alike
      have shapes := Option.some.inj (alike [] signed_nil)
      cases other with
      | arr others =>
          have length : items.length = others.length := Shape.arr.inj shapes
          simp only [sortObj, sortObjItems_eq, ordered, orderedItems_eq, List.map_map]
          apply congrArg Json.arr
          apply List.ext_getElem
          · rw [List.length_map, List.length_map, length]
          · intro position bound boundOther
            rw [List.length_map] at bound boundOther
            rw [List.getElem_map, List.getElem_map]
            apply ih _ (List.getElem_mem bound)
            intro path signed
            have item := alike (.index position :: path) (signed_cons.mpr ⟨by simp, signed⟩)
            rwa [look, look, List.getElem?_eq_getElem bound, List.getElem?_eq_getElem boundOther]
              at item
      | _ => cases shapes
  | obj fields ih =>
      intro other alike
      have shapes := Option.some.inj (alike [] signed_nil)
      cases other with
      | obj others =>
          have sorted (fields : List (Units × Json)) :
              (mapValues ordered (sortedFields fields)).Pairwise fun field other =>
                leKey field other = true :=
            List.pairwise_map.mpr (pairwise_sortedFields fields)
          simp only [sortObj, sortObjFields_eq, ordered, orderedFields_eq]
          apply congrArg Json.obj
          apply ownFields_eq (sorted _) (sorted _)
          intro key
          rw [lookup_mapValues, lookup_mapValues, lookup_sortedFields, lookup_sortedFields]
          split
          · rename_i kept
            rw [lookup_mapValues, lookup_mapValues, Option.map_map, Option.map_map]
            have under (path : List Step) (signed : Signed path) :
                (fields.lookup key).bind (look path) = (others.lookup key).bind (look path) :=
              alike (.key key :: path) (signed_cons.mpr ⟨by simpa using kept, signed⟩)
            have shape := under [] signed_nil
            cases found : fields.lookup key with
            | none =>
                cases foundOther : others.lookup key with
                | none => rfl
                | some second =>
                    rw [found, foundOther] at shape
                    cases shape
            | some value =>
                cases foundOther : others.lookup key with
                | none =>
                    rw [found, foundOther] at shape
                    cases shape
                | some second =>
                    rw [found, foundOther] at under
                    exact congrArg some (ih (key, value) (mem_of_lookup found) second under)
          · rfl
      | _ => cases shapes

theorem canonicalBytes_eq_iff {value other : Json} :
    canonicalBytes value = canonicalBytes other ↔ Alike value other := by
  constructor
  · intro same path signed
    have texts : canonicalize value = canonicalize other :=
      String.ofList_injective (String.toByteArray_inj.mp same)
    unfold canonicalize at texts
    rw [stringify_eq, stringify_eq] at texts
    rw [← look_sortObj value signed, ← look_sortObj other signed, ← look_ordered,
      print_inj texts, look_ordered]
  · intro alike
    unfold canonicalBytes canonicalize
    rw [stringify_eq, stringify_eq, ordered_sortObj value other alike]

/-! ## Commands -/

/-- No path leads through the key. -/
def Avoids (key : Units) (value : Json) : Prop := ∀ path, .key key ∈ path → look path value = none

namespace Command

/-- What the envelope says is the type: the payload's own `type`, if it has one. -/
def typeField (command : Command) : Json :=
  ((spread command.payload).lookup (ofString "type")).getD (.str command.commandType)

/-- The commands are the same, up to the order of keys. -/
def SameAs (command other : Command) : Prop :=
  command.commandType = other.commandType ∧ Same command.payload other.payload

/-- The commands differ where it is signed: in what the envelopes say is the type, or in the
properties of the payloads beside `type`, under no key that is left out. -/
def Apart (command other : Command) : Prop :=
  ¬ Alike command.typeField other.typeField ∨
    ∃ path, Signed path ∧ path.head? ≠ some (.key (ofString "type")) ∧
      look path (.obj (spread command.payload)) ≠ look path (.obj (spread other.payload))

/-- The bytes signed for two commands are the same for the same command only. -/
def Commits (command other : Command) : Prop :=
  command.signedBytes = other.signedBytes → command.SameAs other

theorem nodup_spread (payload : Json) : (keys (spread payload)).Nodup := by
  have indexed {α : Type} (items : List α) (entry : α → Json) :
      (keys (items.zipIdx.map fun (item, index) =>
        (ofString (toString index), entry item))).Nodup := by
    have names : keys (items.zipIdx.map fun (item, index) =>
        (ofString (toString index), entry item)) =
          (items.zipIdx.map Prod.snd).map fun index => ofString (toString index) := by
      simp only [keys, List.map_map]
      rfl
    rw [names, List.zipIdx_map_snd]
    apply List.Nodup.map _ List.nodup_range'
    intro index other same
    exact Numerals.toString_inj.mp (ofString_inj.mp same)
  cases payload with
  | obj fields => exact nodup_ownFields fields
  | arr items => exact indexed items id
  | str text => exact indexed text fun unit => .str [unit]
  | null | bool _ | num _ => exact List.nodup_nil

variable {command other : Command}

/-- The copy that is sent has the properties of the payload. -/
theorem lookup_copied (payload : Json) (key : Units) :
    ((spread payload).foldl assign []).lookup key = (spread payload).lookup key := by
  rw [lookup_foldl_assign, List.lookup_nil, Option.or_none,
    ← lookup_perm (List.reverse_perm _).symm (nodup_spread payload)]

theorem look_envelope (command : Command) (key : Units) (path : List Step) :
    look (.key key :: path) command.envelope =
      if key = ofString "type" then look path command.typeField
      else look (.key key :: path) (.obj (spread command.payload)) := by
  rw [envelope, finalPayload, spread, look, lookup_foldl_assign,
    ← lookup_perm (List.reverse_perm _).symm (nodup_ownFields _), lookup_ownFields,
    lookup_copied, List.lookup_cons, List.lookup_nil]
  cases same : key == ofString "type" with
  | true =>
      have equal := eq_of_beq same
      subst equal
      rw [if_pos rfl, typeField]
      cases (spread command.payload).lookup (ofString "type") <;> rfl
  | false => rw [if_neg (ne_of_beq_false same), Option.or_none, look]

/-- The bytes are the same exactly if nothing that is signed tells the commands apart. -/
theorem signedBytes_eq_iff (command other : Command) :
    command.signedBytes = other.signedBytes ↔ ¬ command.Apart other := by
  unfold signedBytes Apart
  rw [canonicalBytes_eq_iff, not_or, not_not]
  constructor
  · intro alike
    constructor
    · intro path signed
      have typed : Signed (.key (ofString "type") :: path) :=
        signed_cons.mpr ⟨by constructor <;> decide, signed⟩
      have types := alike _ typed
      rwa [look_envelope, look_envelope, if_pos rfl, if_pos rfl] at types
    · intro differing
      obtain ⟨path, signed, beside, differ⟩ := differing
      apply differ
      match path with
      | [] => rfl
      | .index _ :: _ => rfl
      | .key key :: path =>
          have other : key ≠ ofString "type" := fun same => beside (congrArg (some ∘ Step.key) same)
          have fields := alike _ signed
          rwa [look_envelope, look_envelope, if_neg other, if_neg other] at fields
  · intro together path signed
    obtain ⟨types, fields⟩ := together
    match path with
    | [] => rfl
    | .index _ :: _ => rfl
    | .key key :: path =>
        rw [look_envelope, look_envelope]
        split
        · exact types path (signed_cons.mp signed).2
        · rename_i other
          by_contra differ
          have beside : (Step.key key :: path).head? ≠ some (.key (ofString "type")) :=
            fun same => other (Step.key.inj (Option.some.inj same))
          exact fields ⟨_, signed, beside, differ⟩

/-- A payload that is an object without a `type` of its own, and without the keys that are left
out. -/
structure Plain (command : Command) : Prop where
  isObject : ∃ fields, command.payload = .obj fields
  type : look [.key (ofString "type")] command.payload = none
  signature : Avoids Agents.signature command.payload
  proto : Avoids Agents.proto command.payload

theorem Plain.look_spread (plain : command.Plain) (path : List Step) :
    look path (.obj (spread command.payload)) = look path command.payload := by
  obtain ⟨fields, named⟩ := plain.isObject
  rw [named]
  match path with
  | [] => rfl
  | .index _ :: _ => rfl
  | .key key :: path => rw [look, look, spread, lookup_ownFields]

theorem Plain.typeField (plain : command.Plain) :
    command.typeField = .str command.commandType := by
  obtain ⟨fields, named⟩ := plain.isObject
  have absent := plain.type
  rw [named] at absent
  rw [Command.typeField, named, spread, lookup_ownFields, lookup_eq_none absent]
  rfl

/-- Plain commands are told apart by what is signed. -/
theorem apart_or_same (plain : command.Plain) (plainOther : other.Plain) :
    command.Apart other ∨ command.SameAs other := by
  rw [or_iff_not_imp_left]
  intro together
  rw [Apart, not_or, not_not] at together
  obtain ⟨types, fields⟩ := together
  constructor
  · have texts := types [] signed_nil
    rw [plain.typeField, plainOther.typeField] at texts
    exact Shape.str.inj (Option.some.inj texts)
  · intro path
    by_cases signed : Signed path
    · by_cases beside : path.head? = some (.key (ofString "type"))
      · have none {command : Command} (plain : command.Plain) :
            look path command.payload = none := by
          obtain ⟨fields, named⟩ := plain.isObject
          have absent := plain.type
          rw [named] at absent
          obtain ⟨rest, rfl⟩ : ∃ rest, path = .key (ofString "type") :: rest :=
            List.head?_eq_some_iff.mp beside
          rw [named, look, lookup_eq_none absent]
          rfl
        rw [none plain, none plainOther]
      · by_contra differ
        apply fields
        refine ⟨path, signed, beside, ?_⟩
        rwa [plain.look_spread, plainOther.look_spread]
    · unfold Signed at signed
      rw [not_and_or, not_not, not_not] at signed
      rcases signed with through | through
      · rw [plain.signature path through, plainOther.signature path through]
      · rw [plain.proto path through, plainOther.proto path through]

/-- Bytes signed for a plain command are not signed for another plain command. -/
theorem commits_of_plain (plain : command.Plain) (plainOther : other.Plain) :
    command.Commits other := by
  intro same
  rcases apart_or_same plain plainOther with apart | equal
  · exact absurd apart ((signedBytes_eq_iff command other).mp same)
  · exact equal

/-- Objects whose entries agree under every signed path. -/
theorem alike_cons {others : List (Units × Json)} {value other : Json} (values : Alike value other)
    (rest : Alike (.obj fields) (.obj others)) (own : Units) :
    Alike (.obj ((own, value) :: fields)) (.obj ((own, other) :: others)) := by
  intro path signed
  match path with
  | [] => rfl
  | .index _ :: _ => rfl
  | .key step :: path =>
      rw [look, look, List.lookup_cons, List.lookup_cons]
      cases step == own with
      | true => exact values path (signed_cons.mp signed).2
      | false => exact rest (.key step :: path) signed

/-- What stands under `signature` makes no difference. -/
theorem alike_signature (value : Json) :
    Alike (.obj ((signature, value) :: fields)) (.obj fields) := by
  intro path signed
  match path with
  | [] => rfl
  | .index _ :: _ => rfl
  | .key step :: path =>
      have other : (step == signature) = false :=
        beq_eq_false_iff_ne.mpr fun same => (signed_cons.mp signed).1.1 (congrArg Step.key same)
      rw [look, List.lookup_cons, other, look]

theorem alike_refl (value : Json) : Alike value value := fun _ _ => rfl

theorem not_apart_of_alike {commandType : Units} {others : List (Units × Json)}
    (alike : Alike (.obj fields) (.obj others)) (untyped : fields.lookup (ofString "type") = none)
    (untypedOther : others.lookup (ofString "type") = none) :
    ¬ Apart ⟨commandType, .obj fields⟩ ⟨commandType, .obj others⟩ := by
  rw [Apart, not_or, not_not]
  constructor
  · rw [typeField, typeField, spread, spread, lookup_ownFields, lookup_ownFields, untyped,
      untypedOther]
    exact alike_refl _
  · intro differing
    obtain ⟨path, signed, -, differ⟩ := differing
    apply differ
    have looks := alike path signed
    match path with
    | [] => rfl
    | .index _ :: _ => rfl
    | .key key :: path =>
        rwa [spread, spread, look, look, lookup_ownFields, lookup_ownFields, ← look, ← look]

/-- A restart of a unit, with options. -/
def restart (options : List (Units × Json)) : Command :=
  ⟨ofString "service_restart", .obj [(ofString "unit", .str (ofString "nginx")),
    (ofString "options", .obj options)]⟩

end Command

end ThetaDirectory.Agents
