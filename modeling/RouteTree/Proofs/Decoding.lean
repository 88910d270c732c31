import RouteTree.Documentation.Basic
import RouteTree.Proofs.JsonReading
import Std.Data.ExtTreeMap.Lemmas

/-!
# Decoding documentation

Documentation can be had back from its JSON text, whatever its routes, labels and texts are. The text is read as
the value that was rendered (`Json.read?_render`), where a map is an object with a member for every entry
(`mapOf?_object`), and of a view there are the members that are present.
-/

namespace RouteTree
open Text (Json)

/-- A map from an object, the values of whose members are decoded by `decode?`. -/
def mapOf? {α : Type} (decode? : Json → Option α) : Json → Option (Std.ExtTreeMap String α)
  | .string _ => none
  | .object members => do
    let entries ← members.mapM fun (name, value) => do return (name, ← decode? value)
    return .ofList entries

/-- The text of the member with this name, which may be absent. -/
def field? (members : List (String × Json)) (name : String) : Option (Option String) :=
  match members.lookup name with
  | none => some none
  | some (.string text) => some (some text)
  | some (.object _) => none

def ViewDoc.ofJson? : Json → Option ViewDoc
  | .string _ => none
  | .object members => do
    let description ← (← field? members "description")
    let required ← field? members "required"
    let optional ← field? members "optional"
    let unlimited ← field? members "unlimited"
    let returns ← field? members "returns"
    return { description, required, optional, unlimited, returns }

def RouteDoc.ofJson? : Json → Option RouteDoc := mapOf? ViewDoc.ofJson?

namespace Documentation

def ofJson? (j : Json) : Option Documentation := (mapOf? RouteDoc.ofJson? j).map Documentation.mk

/-- The documentation in a JSON text, in whatever layout. -/
def ofText? (text : String) : Option Documentation := (Json.read? text).bind ofJson?

end Documentation

theorem ofList_toList {α : Type} (m : Std.ExtTreeMap String α) : Std.ExtTreeMap.ofList m.toList = m := by
  refine Std.ExtTreeMap.ext_getElem? fun name => ?_
  cases hv : m[name]? with
  | none =>
    have hn : name ∉ m := fun hmem => by
      rw [Std.ExtTreeMap.mem_iff_isSome_getElem?, hv] at hmem
      cases hmem
    rw [Std.ExtTreeMap.getElem?_ofList_of_contains_eq_false]
    simpa using hn
  | some v =>
    have hmem : (name, v) ∈ m.toList := Std.ExtTreeMap.mem_toList_iff_getElem?_eq_some.2 hv
    exact Std.ExtTreeMap.getElem?_ofList_of_mem Std.ReflCmp.compare_self Std.ExtTreeMap.distinct_keys_toList hmem

/-- A map is decoded if its values are. -/
theorem mapOf?_object {α : Type} {decode? : Json → Option α} {encode : α → Json}
    (h : ∀ a, decode? (encode a) = some a) (m : Std.ExtTreeMap String α) :
    mapOf? decode? (.object (m.toList.map fun (name, a) => (name, encode a))) = some m := by
  have hmembers :
      ((fun (name, value) => do return (name, ← decode? value)) ∘ fun (name, a) => (name, encode a)) =
        fun e : String × α => (pure e : Option (String × α)) := by
    funext e
    show (do return (e.1, ← decode? (encode e.2))) = _
    rw [h]
    rfl
  have hentries : (m.toList.map fun (name, a) => (name, encode a)).mapM
      (fun (name, value) => do return (name, ← decode? value)) = some m.toList := by
    rw [List.mapM_map, hmembers, List.mapM_pure, List.map_id']
    rfl
  rw [mapOf?, hentries]
  exact congrArg some (ofList_toList m)

theorem ViewDoc.ofJson?_toJson (d : ViewDoc) : ViewDoc.ofJson? d.toJson = some d := by
  obtain ⟨description, _ | required, _ | optional, _ | unlimited, _ | returns⟩ := d <;> rfl

theorem RouteDoc.ofJson?_toJson (views : RouteDoc) :
    RouteDoc.ofJson? (.object (views.toList.map fun (label, view) => (label, view.toJson))) = some views :=
  mapOf?_object ViewDoc.ofJson?_toJson views

namespace Documentation

theorem ofJson?_toJson (d : Documentation) : ofJson? d.toJson = some d := by
  rw [ofJson?, toJson, mapOf?_object RouteDoc.ofJson?_toJson, Option.map_some]

theorem ofText?_jsonText (d : Documentation) : ofText? d.jsonText = some d := by
  rw [ofText?, jsonText, Json.read?_render, Option.bind_some, ofJson?_toJson]

/-- Documentation can be had back from its JSON text, so that no two have the same text. -/
theorem jsonText_lossless (d d' : Documentation) :
    ofText? d.jsonText = some d ∧ (d.jsonText = d'.jsonText ↔ d = d') := by
  refine ⟨ofText?_jsonText d, fun h => ?_, fun h => h ▸ rfl⟩
  have hsame : some d = some d' := by
    rw [← ofText?_jsonText d, h, ofText?_jsonText d']
  exact Option.some.inj hsame

end Documentation

end RouteTree
