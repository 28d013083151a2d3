/-
  BuildTargets/Proofs/Report.lean
  ===============================
  **What is printed for programs says everything.**

  The JSON form of a report is a text of exactly one value, and this value shows the
  report: an object with the fields that the report has and with no others, or an
  array of such objects (`Report.Shows`).  Which fields there are tells the kind of
  the report, so it can be read back (`Report.ofJson?_of_shows`), and different
  reports are printed differently (`Report.json_tells`).
-/
import BuildTargets.Proofs.Json.Printing
import BuildTargets.Proofs.Listing
import BuildTargets.Report
import Mathlib.Data.List.Nodup

namespace BuildTargets

/-- A dictionary has the entries that it is made of, if no key comes twice. -/
theorem Dict.toList_ofList_perm {α : Type} {es : List (String × α)} (h : (es.map (·.1)).Nodup) :
    (ofList es).toList.Perm es := by
  refine (List.perm_ext_iff_of_nodup (List.Nodup.of_map _ (ofList es).nodup_keys)
    (List.Nodup.of_map _ h)).mpr ?_
  intro e
  rw [← Dict.get?_eq_some_iff, Dict.get?_ofList h]

namespace Report

open Json (IsDict IsList IsText)
open Listing (IsString)

/-! ### Values that show reports -/

/-- An object of texts, with these fields in any order and with no others. -/
def HasFields (fields : List (String × String)) (j : Json) : Prop :=
  IsDict IsString (.ofList fields) j

def ShowsTarget (t : Target) : Json → Prop :=
  HasFields [("name", t.name), ("architecture", t.architecture), ("framework", t.framework)]

/-- The values that show a report. -/
inductive Shows : Report → Json → Prop where
  | targets {ts : List Target} {j : Json} (h : IsList ShowsTarget ts j) : Shows (.targets ts) j
  | status {name : String} {j : Json} (h : HasFields [("status", name)] j) :
      Shows (.status ⟨name, none⟩) j
  | addressed {name address : String} {j : Json}
      (h : HasFields [("status", name), ("ipv4", address)] j) :
      Shows (.status ⟨name, some address⟩) j
  | rootfs {path : String} {j : Json} (h : HasFields [("rootfs", path)] j) : Shows (.rootfs path) j
  | message {text : String} {j : Json} (h : HasFields [("message", text)] j) :
      Shows (.message text) j

/-! ### Reading them -/

def target? (j : Json) : Option Target := do
  let fields ← Json.dict? Json.text? j
  return ⟨← fields.get? "name", ← fields.get? "architecture", ← fields.get? "framework"⟩

/-- The report that some fields make. -/
def ofFields? (fields : Dict String String) : Option Report :=
  match fields.get? "rootfs", fields.get? "message", fields.get? "status" with
  | some path, _, _ => some (.rootfs path)
  | none, some text, _ => some (.message text)
  | none, none, some name => some (.status ⟨name, fields.get? "ipv4"⟩)
  | none, none, none => none

def ofJson? : Json → Option Report
  | .array items => (Json.list? target? (.array items)).map .targets
  | j => Json.dict? Json.text? j >>= ofFields?

/-- The report that a text in the form for programs shows. -/
def read? (text : String) : Option Report := Json.read? text >>= ofJson?

theorem dict?_of_hasFields {fields : List (String × String)} {j : Json} (h : HasFields fields j) :
    Json.dict? Json.text? j = some (.ofList fields) :=
  Json.dict?_of_isDict_id h fun _ _ => Listing.text?_of_isString

theorem target?_of_showsTarget {t : Target} {j : Json} (h : ShowsTarget t j) :
    target? j = some t := by
  simp [target?, dict?_of_hasFields h, Dict.ofList, Dict.get?_insert]

theorem ofJson?_of_hasFields {fields : List (String × String)} {j : Json}
    (h : HasFields fields j) : ofJson? j = ofFields? (.ofList fields) := by
  have hfields := dict?_of_hasFields h
  obtain ⟨entries, members, -, rfl, -⟩ := h
  simp [ofJson?, hfields]

/-- A value shows at most one report. -/
theorem ofJson?_of_shows {r : Report} {j : Json} (h : r.Shows j) : ofJson? j = some r := by
  cases h with
  | targets h =>
    have hlist := Json.list?_of_isList h fun _ _ => target?_of_showsTarget
    obtain ⟨items, rfl, -⟩ := h
    simp [ofJson?, hlist]
  | status h => simp [ofJson?_of_hasFields h, ofFields?, Dict.ofList, Dict.get?_insert]
  | addressed h => simp [ofJson?_of_hasFields h, ofFields?, Dict.ofList, Dict.get?_insert]
  | rootfs h => simp [ofJson?_of_hasFields h, ofFields?, Dict.ofList, Dict.get?_insert]
  | message h => simp [ofJson?_of_hasFields h, ofFields?, Dict.ofList, Dict.get?_insert]

/-! ### What is printed -/

/-- The object that is printed for some fields, in the order in which they are to be
    printed. -/
def fieldsJson (fields : List (String × String)) : Json :=
  .object (fields.map fun f => textMember f.1 f.2)

theorem hasFields_fieldsJson {fields printed : List (String × String)}
    (hfields : (fields.map (·.1)).Nodup) (hprinted : printed.Perm fields) :
    HasFields fields (fieldsJson printed) := by
  refine ⟨printed, _, hprinted.trans (Dict.toList_ofList_perm hfields).symm, rfl, ?_⟩
  rw [List.forall₂_map_right_iff, List.forall₂_same]
  intro f _
  exact ⟨rfl, rfl⟩

theorem isNumbered_fieldsJson (fields : List (String × String)) :
    (fieldsJson fields).IsNumbered := by
  apply Json.IsNumbered.object
  intro m hm
  obtain ⟨f, -, rfl⟩ := List.mem_map.mp hm
  exact .string _

/-- The fields of a target, in the order in which they are printed. -/
theorem targetJson_eq (t : Target) : targetJson t =
    fieldsJson [("architecture", t.architecture), ("framework", t.framework), ("name", t.name)] :=
  rfl

theorem showsTarget_targetJson (t : Target) : ShowsTarget t (targetJson t) := by
  rw [targetJson_eq]
  apply hasFields_fieldsJson
  · simp
  · exact ((List.Perm.swap _ _ _).cons _).trans (.swap _ _ _)

theorem shows_toJson (r : Report) : r.Shows r.toJson := by
  have hsingle (f : String × String) : HasFields [f] (fieldsJson [f]) :=
    hasFields_fieldsJson (by simp) (.refl _)
  cases r with
  | targets ts =>
    refine .targets ⟨_, rfl, ?_⟩
    rw [List.forall₂_map_right_iff, List.forall₂_same]
    intro t _
    exact showsTarget_targetJson t
  | status s =>
    obtain ⟨name, address⟩ := s
    cases address with
    | none => exact .status (hsingle ("status", name))
    | some address =>
      have hprinted : [("ipv4", address), ("status", name)].Perm
          [("status", name), ("ipv4", address)] := .swap _ _ _
      exact .addressed (hasFields_fieldsJson (by simp) hprinted)
  | rootfs path => exact .rootfs (hsingle ("rootfs", path))
  | message text => exact .message (hsingle ("message", text))

theorem isNumbered_toJson (r : Report) : r.toJson.IsNumbered := by
  cases r with
  | targets ts =>
    apply Json.IsNumbered.array
    intro j hj
    obtain ⟨t, -, rfl⟩ := List.mem_map.mp hj
    rw [targetJson_eq]
    exact isNumbered_fieldsJson _
  | status s =>
    obtain ⟨name, address⟩ := s
    cases address with
    | none => exact isNumbered_fieldsJson [("status", name)]
    | some address => exact isNumbered_fieldsJson [("ipv4", address), ("status", name)]
  | rootfs path => exact isNumbered_fieldsJson [("rootfs", path)]
  | message text => exact isNumbered_fieldsJson [("message", text)]

/-- A report in its form for programs spells one value, which shows the report, and no
    other value. -/
theorem isText_json_iff (r : Report) (j : Json) : IsText j r.json ↔ j = r.toJson := by
  have htext : IsText r.toJson r.json := Json.isText_pretty (isNumbered_toJson r)
  constructor
  · intro h
    have hread := Json.read?_of_isText h
    rw [Json.read?_of_isText htext, Option.some.injEq] at hread
    exact hread.symm
  · rintro rfl
    exact htext

theorem read?_json (r : Report) : read? r.json = some r := by
  have htext := (isText_json_iff r r.toJson).mpr rfl
  simp [read?, Json.read?_of_isText htext, ofJson?_of_shows (shows_toJson r)]

/-- A report in its form for programs is JSON, by the grammar and for the reader: the
    text of exactly one value, which shows the report with all its fields, in order and
    to the character, and nothing else.  So it is read back as it was, and two reports
    are printed alike only if they are the same. -/
theorem json_tells (r : Report) :
    (∃ j, r.Shows j ∧ Json.read? r.json = some j ∧ ∀ j', IsText j' r.json ↔ j' = j) ∧
      read? r.json = some r ∧ ∀ r' : Report, r.json = r'.json ↔ r = r' := by
  refine ⟨⟨r.toJson, shows_toJson r, ?_, isText_json_iff r⟩, read?_json r, ?_⟩
  · exact Json.read?_of_isText ((isText_json_iff r r.toJson).mpr rfl)
  · intro r'
    constructor
    · intro h
      have hread := read?_json r
      rw [h, read?_json r', Option.some.injEq] at hread
      exact hread.symm
    · rintro rfl
      rfl

end Report

end BuildTargets
