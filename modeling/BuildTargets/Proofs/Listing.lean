/-
  BuildTargets/Proofs/Listing.lean
  ================================
  **Every rendering of a list of containers is read as that list.**

  `Renders` says which texts render a list of containers: the members of an object in
  any order, strings spelled in any way, and members of unknown names besides.  The
  texts of statuses and kinds are any that are read as these.

  What names the unknown members may have is a parameter.  A name in which half a
  surrogate pair is escaped spells no text, and the reader refuses it even where it
  would not look at it (`unpaired_name_refused`); with names that spell texts nothing
  is refused (`read?_of_renders`).
-/
import BuildTargets.Listing
import BuildTargets.Proofs.Json.Decode
import BuildTargets.Proofs.Json.Printing

namespace BuildTargets.Listing

open BuildTargets Json

/-! ### Renderings -/

section

variable (Admits : Option String → Prop)

def IsString (text : String) (j : Json) : Prop := j = .string (some text)

def IsAddress (a : Address) : Json → Prop :=
  IsRecord Admits ["family", "address"]
    [("family", .string (some a.family)), ("address", .string (some a.address))]

/-- A network interface; without addresses the field may be missing. -/
def IsInterface (addresses : List Address) (j : Json) : Prop :=
  addresses = [] ∧ IsRecord Admits ["addresses"] [] j ∨
    ∃ items, IsList (IsAddress Admits) addresses items ∧
      IsRecord Admits ["addresses"] [("addresses", items)] j

/-- The last address of the family `inet`, if there is one. -/
inductive IsLast : List Address → Option String → Prop where
  | none {addresses : List Address} (h : ∀ a ∈ addresses, a.family ≠ "inet") :
      IsLast addresses none
  | some {before after : List Address} {address : String} (h : ∀ a ∈ after, a.family ≠ "inet") :
      IsLast (before ++ ⟨"inet", address⟩ :: after) (some address)

/-- The interfaces of a container; the first one, `eth0`, has its address. -/
def IsNetwork (address : Option String) (j : Json) : Prop :=
  ∃ interfaces : Dict String (List Address), IsDict (IsInterface Admits) interfaces j ∧
    match interfaces.get? "eth0" with
    | none => address = none
    | some addresses => IsLast addresses address

/-- The state of a container that has an address or has none. -/
inductive IsState : Option String → Option Json → Prop where
  | missing : IsState none none
  | null : IsState none (some .null)
  | noNetwork {j : Json} (h : IsRecord Admits ["network"] [] j) : IsState none (some j)
  | nullNetwork {j : Json} (h : IsRecord Admits ["network"] [("network", .null)] j) :
      IsState none (some j)
  | network {address : Option String} {n j : Json} (hn : IsNetwork Admits address n)
      (h : IsRecord Admits ["network"] [("network", n)] j) : IsState address (some j)

/-- A device as a flat map, with its kind under `type`. -/
def IsDevice (d : Device) (j : Json) : Prop :=
  ∃ kind, d.kind = .ofName kind ∧ d.properties.get? "type" = none ∧
    IsDict IsString (d.properties.insert "type" kind) j

def IsListed (c : Container) (j : Json) : Prop :=
  ∃ status config devices state, c.status = .ofText status ∧ IsDict IsString c.config config ∧
    IsDict IsDevice c.devices devices ∧ IsState Admits c.ipv4 state ∧
    IsRecord Admits ["name", "status", "config", "devices", "state"]
      ([("name", .string (some c.name)), ("status", .string (some status)), ("config", config),
        ("devices", devices)] ++ state.toList.map fun j => ("state", j)) j

/-- A text that renders a list of containers. -/
def Renders (cs : List Container) (text : String) : Prop :=
  ∃ j, IsList (IsListed Admits) cs j ∧ IsText j text

end

/-! ### Reading them -/

variable {j : Json}

theorem text?_of_isString {text : String} (h : IsString text j) : j.text? = some text := by
  rw [h]
  rfl

theorem address?_of_isAddress {a : Address} (h : IsAddress (·.isSome) a j) :
    address? j = some a := by
  obtain ⟨found, hrecord, hfound⟩ := record?_of_isRecord h (List.Sublist.refl _) (by decide)
  have hfamily : required found "family" text? = some a.family :=
    required_of_get? ((hfound _ (.string (some a.family))).mpr (by simp)) rfl
  have haddress : required found "address" text? = some a.address :=
    required_of_get? ((hfound _ (.string (some a.address))).mpr (by simp)) rfl
  rw [address?, hrecord, Option.bind_eq_bind, Option.bind_some, hfamily, haddress]
  rfl

/-- An unknown field does not stand for a known one. -/
theorem get?_eq_none {found : Dict String Json} {fields : List (String × Json)} {name : String}
    (hfound : ∀ name value, found.get? name = some value ↔ (name, value) ∈ fields)
    (hname : name ∉ fields.map (·.1)) : found.get? name = none := by
  cases hget : found.get? name with
  | none => rfl
  | some value => exact absurd (List.mem_map.mpr ⟨_, (hfound _ _).mp hget, rfl⟩) hname

theorem interface?_of_isInterface {addresses : List Address}
    (h : IsInterface (·.isSome) addresses j) : interface? j = some addresses := by
  rcases h with ⟨rfl, h⟩ | ⟨items, hitems, h⟩
  · obtain ⟨found, hrecord, hfound⟩ := record?_of_isRecord h (List.nil_sublist _) (by decide)
    rw [interface?, hrecord, Option.bind_eq_bind, Option.bind_some]
    exact optional_of_none (get?_eq_none hfound (by simp))
  · obtain ⟨found, hrecord, hfound⟩ := record?_of_isRecord h (List.Sublist.refl _) (by decide)
    rw [interface?, hrecord, Option.bind_eq_bind, Option.bind_some]
    exact optional_of_get? ((hfound _ _).mpr (by simp))
      (list?_of_isList hitems fun _ _ => address?_of_isAddress)

theorem mainAddress_of_isLast {interfaces : Dict String (List Address)} {address : Option String}
    (h : match interfaces.get? "eth0" with
      | none => address = none
      | some addresses => IsLast addresses address) : mainAddress interfaces = address := by
  rw [mainAddress, mainInterface]
  cases hget : interfaces.get? "eth0" with
  | none =>
    rw [hget] at h
    exact h.symm
  | some addresses =>
    rw [hget] at h
    have hnone (as : List Address) (has : ∀ a ∈ as, a.family ≠ "inet") :
        as.filter (·.family = ipv4Family) = [] :=
      List.filter_eq_nil_iff.mpr fun a ha => by simp [ipv4Family, has a ha]
    cases h with
    | none hall =>
      simp only [hnone addresses hall]
      rfl
    | @some before after address hafter =>
      dsimp only
      rw [List.filter_append, List.filter_cons_of_pos (by simp [ipv4Family]), hnone after hafter,
        List.map_append]
      exact List.getLast?_concat ..

theorem dict?_of_isNetwork {address : Option String} (h : IsNetwork (·.isSome) address j) :
    ∃ interfaces, nullable? (dict? interface?) j = some (some interfaces) ∧
      mainAddress interfaces = address := by
  obtain ⟨interfaces, hdict, hlast⟩ := h
  have hread := dict?_of_isDict_id hdict fun _ _ => interface?_of_isInterface
  obtain ⟨entries, members, -, rfl, -⟩ := hdict
  refine ⟨interfaces, ?_, mainAddress_of_isLast hlast⟩
  have hobject : nullable? (dict? interface?) (.object members) =
      (dict? interface? (.object members)).map some := rfl
  rw [hobject, hread]
  rfl

/-- A state is read as one that shows the address. -/
theorem state?_of_isState {address : Option String} (h : IsState (·.isSome) address (some j)) :
    ∃ state, nullable? state? j = some state ∧ state.join.bind mainAddress = address := by
  have hobject {fields : List (String × Json)} (h : IsRecord (·.isSome) ["network"] fields j) :
      nullable? state? j = (state? j).map some := by
    obtain ⟨members, unknown, rfl, -⟩ := h
    rfl
  cases h with
  | null => exact ⟨none, rfl, rfl⟩
  | noNetwork h =>
    obtain ⟨found, hrecord, hfound⟩ := record?_of_isRecord h (List.nil_sublist _) (by decide)
    have hnone : found.get? "network" = none := get?_eq_none hfound (by simp)
    refine ⟨some none, ?_, rfl⟩
    rw [hobject h, state?, hrecord, Option.bind_eq_bind, Option.bind_some, optional_of_none hnone]
    rfl
  | nullNetwork h =>
    obtain ⟨found, hrecord, hfound⟩ := record?_of_isRecord h (List.Sublist.refl _) (by decide)
    have hnull : optional found "network" none (nullable? (dict? interface?)) = some none :=
      optional_of_get? ((hfound _ .null).mpr (by simp)) rfl
    refine ⟨some none, ?_, rfl⟩
    rw [hobject h, state?, hrecord, Option.bind_eq_bind, Option.bind_some, hnull]
    rfl
  | network hn h =>
    obtain ⟨found, hrecord, hfound⟩ := record?_of_isRecord h (List.Sublist.refl _) (by decide)
    obtain ⟨interfaces, hread, hmain⟩ := dict?_of_isNetwork hn
    refine ⟨some (some interfaces), ?_, hmain⟩
    rw [hobject h, state?, hrecord, Option.bind_eq_bind, Option.bind_some,
      optional_of_get? ((hfound _ _).mpr (by simp)) hread]
    rfl

theorem ofReport_insert {d : Device} {kind : String} (hkind : d.kind = .ofName kind)
    (htype : d.properties.get? "type" = none) :
    Device.ofReport (d.properties.insert "type" kind) = d := by
  rw [Device.ofReport, Dict.get?_insert_self, Dict.erase_insert, Dict.erase_of_get? htype]
  dsimp only
  rw [← hkind]

theorem devices_of_isDict {devices : Dict String Device} (h : IsDict IsDevice devices j) :
    ∃ reports, dict? (dict? text?) j = some reports ∧ reports.map Device.ofReport = devices := by
  refine dict?_of_isDict h fun d j hdevice => ?_
  obtain ⟨kind, hkind, htype, hreport⟩ := hdevice
  exact ⟨_, dict?_of_isDict_id hreport fun _ _ => text?_of_isString, ofReport_insert hkind htype⟩

theorem container?_of_isListed {c : Container} (h : IsListed (·.isSome) c j) :
    container? j = some c := by
  obtain ⟨status, config, devices, state, hstatus, hconfig, hdevices, hstate, h⟩ := h
  have hsub : List.Sublist (List.map (·.1) ([("name", Json.string (some c.name)),
      ("status", .string (some status)), ("config", config), ("devices", devices)] ++
        state.toList.map fun j => ("state", j))) ["name", "status", "config", "devices", "state"] := by
    cases state <;> simp
  obtain ⟨found, hrecord, hfound⟩ := record?_of_isRecord h hsub (by decide)
  have hname : required found "name" text? = some c.name :=
    required_of_get? ((hfound _ (.string (some c.name))).mpr (by simp)) rfl
  have hstatusRead : optional found "status" "" text? = some status :=
    optional_of_get? ((hfound _ (.string (some status))).mpr (by simp)) rfl
  have hconfigRead : optional found "config" .empty (dict? text?) = some c.config :=
    optional_of_get? ((hfound _ config).mpr (by simp))
      (dict?_of_isDict_id hconfig fun _ _ => text?_of_isString)
  have hread (address : Option String) (hstate : IsState (·.isSome) address state) :
      ∃ read, optional found "state" none (nullable? state?) = some read ∧
        read.join.bind mainAddress = address := by
    cases state with
    | none =>
      have hnone : found.get? "state" = none := get?_eq_none hfound (by simp)
      cases hstate with
      | missing => exact ⟨none, optional_of_none hnone, rfl⟩
    | some j =>
      obtain ⟨read, hread, haddress⟩ := state?_of_isState hstate
      exact ⟨read, optional_of_get? ((hfound _ _).mpr (by simp)) hread, haddress⟩
  obtain ⟨read, hread, haddress⟩ := hread c.ipv4 hstate
  obtain ⟨reports, hreports, hmap⟩ := devices_of_isDict hdevices
  have hdevicesRead : optional found "devices" .empty (dict? (dict? text?)) = some reports :=
    optional_of_get? ((hfound _ devices).mpr (by simp)) hreports
  rw [container?, hrecord, Option.bind_eq_bind, Option.bind_some, hname, hstatusRead, hconfigRead,
    hdevicesRead, hread]
  simp [haddress, hmap, ← hstatus]

/-! ### A rendering for every list -/

variable {Admits : Option String → Prop} {c : Container}

def reportText (d : Dict String String) : Json :=
  .object (d.toList.map fun e => (some e.1, .string (some e.2)))

def reportDevice (d : Device) : Json := reportText (d.properties.insert "type" d.kind.name)

def reportState : Option String → Json
  | none => .null
  | some address => .object [(some "network", .object [(some "eth0", .object [(some "addresses",
      .array [.object [(some "family", .string (some "inet")),
        (some "address", .string (some address))]])])])]

/-- A container as an object, with members of unknown names at its end. -/
def report (c : Container) (unknown : List Member) : Json :=
  .object ([(some "name", .string (some c.name)), (some "status", .string (some c.status.text)),
    (some "config", reportText c.config),
    (some "devices", .object (c.devices.toList.map fun e => (some e.1, reportDevice e.2))),
    (some "state", reportState c.ipv4)] ++ unknown)

/-- The status and the kinds of the devices are what texts are read as, and no device
    has a property in the place of its kind. -/
structure IsReportable (c : Container) : Prop where
  status : ∃ text, c.status = .ofText text
  devices : ∀ n d, c.devices.get? n = some d →
    (∃ name, d.kind = .ofName name) ∧ d.properties.get? "type" = none

theorem ofText_text {s : Status} (h : ∃ text, s = .ofText text) : Status.ofText s.text = s := by
  obtain ⟨text, rfl⟩ := h
  have hcases : Status.ofText text = .stopped ∨ Status.ofText text = .running ∨
      Status.ofText text = .frozen ∨ Status.ofText text = .other text := by
    simp only [Status.ofText]
    split
    · simp
    · split
      · simp
      · split <;> simp
  rcases hcases with h | h | h | h
  · rw [h]
    rfl
  · rw [h]
    rfl
  · rw [h]
    rfl
  · rw [h, Status.text, h]

instance (c : Container) : Decidable (IsReportable c) :=
  decidable_of_iff (Status.ofText c.status.text = c.status ∧ ∀ e ∈ c.devices.toList,
      DeviceKind.ofName e.2.kind.name = e.2.kind ∧ e.2.properties.get? "type" = none) <| by
    constructor
    · rintro ⟨hstatus, hdevices⟩
      refine ⟨⟨_, hstatus.symm⟩, fun n d hd => ?_⟩
      obtain ⟨hkind, htype⟩ := hdevices (n, d) (Dict.get?_eq_some_iff.mp hd)
      exact ⟨⟨_, hkind.symm⟩, htype⟩
    · rintro ⟨hstatus, hdevices⟩
      refine ⟨ofText_text hstatus, fun e he => ?_⟩
      obtain ⟨⟨name, hname⟩, htype⟩ := hdevices e.1 e.2 (Dict.get?_eq_some_iff.mpr he)
      refine ⟨?_, htype⟩
      rw [hname, DeviceKind.name_ofName]

theorem isDict_object {α : Type} {R : α → Json → Prop} {d : Dict String α} {f : α → Json}
    (h : ∀ n a, d.get? n = some a → R a (f a)) :
    IsDict R d (.object (d.toList.map fun e => (some e.1, f e.2))) := by
  refine ⟨d.toList, _, .refl _, rfl, List.forall₂_map_right_iff.mpr (List.forall₂_same.mpr ?_)⟩
  exact fun e he => ⟨rfl, h e.1 e.2 (Dict.get?_eq_some_iff.mpr he)⟩

theorem isDict_reportText (d : Dict String String) : IsDict IsString d (reportText d) :=
  isDict_object (f := fun text => .string (some text)) fun _ _ _ => rfl

theorem isDevice_reportDevice {d : Device} (hkind : ∃ name, d.kind = .ofName name)
    (htype : d.properties.get? "type" = none) : IsDevice d (reportDevice d) := by
  obtain ⟨name, hname⟩ := hkind
  refine ⟨d.kind.name, ?_, htype, isDict_reportText _⟩
  rw [hname, DeviceKind.name_ofName]

theorem isRecord_object {known : List String} {fields : List (String × Json)}
    {unknown : List Member}
    (hunknown : ∀ m ∈ unknown, Admits m.1 ∧ ∀ name ∈ known, m.1 ≠ some name) :
    IsRecord Admits known fields (.object (fields.map (fun f => (some f.1, f.2)) ++ unknown)) :=
  ⟨_, unknown, rfl, .refl _, hunknown⟩

theorem isState_reportState (address : Option String) :
    IsState Admits address (some (reportState address)) := by
  have hnone (known : List String) (m : Member) (hm : m ∈ ([] : List Member)) :
      Admits m.1 ∧ ∀ name ∈ known, m.1 ≠ some name := absurd hm List.not_mem_nil
  cases address with
  | none => exact .null
  | some address =>
    have haddress : IsAddress Admits ⟨"inet", address⟩ _ := isRecord_object (hnone _)
    have haddresses : IsList (IsAddress Admits) [⟨"inet", address⟩] _ :=
      ⟨_, rfl, .cons haddress .nil⟩
    have hinterface : IsInterface Admits [⟨"inet", address⟩] _ :=
      Or.inr ⟨_, haddresses, isRecord_object (hnone _)⟩
    refine .network ⟨.ofList [("eth0", [⟨"inet", address⟩])], ?_, ?_⟩ (isRecord_object (hnone _))
    · exact ⟨_, _, .refl _, rfl, .cons ⟨rfl, hinterface⟩ .nil⟩
    · have hget : (Dict.ofList [("eth0", [(⟨"inet", address⟩ : Address)])]).get? "eth0" =
          some [⟨"inet", address⟩] := by
        rw [Dict.get?_ofList (by simp)]
        simp
      rw [hget]
      change IsLast ([] ++ [⟨"inet", address⟩]) (some address)
      exact .some fun _ h => absurd h List.not_mem_nil

theorem isListed_report (h : IsReportable c) {unknown : List Member}
    (hunknown : ∀ m ∈ unknown, Admits m.1 ∧
      ∀ name ∈ ["name", "status", "config", "devices", "state"], m.1 ≠ some name) :
    IsListed Admits c (report c unknown) := by
  refine ⟨c.status.text, _, _, some _, (ofText_text h.status).symm, isDict_reportText c.config,
    isDict_object fun n d hd => ?_, isState_reportState c.ipv4, isRecord_object hunknown⟩
  exact isDevice_reportDevice (h.devices n d hd).1 (h.devices n d hd).2

theorem isNumbered_reportText (d : Dict String String) : (reportText d).IsNumbered := by
  refine .object fun m hm => ?_
  obtain ⟨e, -, rfl⟩ := List.mem_map.mp hm
  exact .string _

theorem isNumbered_reportState (address : Option String) : (reportState address).IsNumbered := by
  cases address with
  | none => exact .null
  | some address =>
    have hsingle (name : Option String) {j : Json} (h : j.IsNumbered) :
        (Json.object [(name, j)]).IsNumbered := .object fun m hm => by
      cases List.mem_singleton.mp hm
      exact h
    refine hsingle _ (hsingle _ (hsingle _ (.array fun j hj => ?_)))
    cases List.mem_singleton.mp hj
    refine .object fun m hm => ?_
    simp only [List.mem_cons, List.not_mem_nil, or_false] at hm
    rcases hm with rfl | rfl <;> exact .string _

theorem isNumbered_report (c : Container) {unknown : List Member}
    (hunknown : ∀ m ∈ unknown, m.2.IsNumbered) : (report c unknown).IsNumbered := by
  refine .object fun m hm => ?_
  rcases List.mem_append.mp hm with hm | hm
  · simp only [List.mem_cons, List.not_mem_nil, or_false] at hm
    rcases hm with rfl | rfl | rfl | rfl | rfl
    · exact .string _
    · exact .string _
    · exact isNumbered_reportText _
    · refine .object fun m hm => ?_
      obtain ⟨e, -, rfl⟩ := List.mem_map.mp hm
      exact isNumbered_reportText _
    · exact isNumbered_reportState _
  · exact hunknown m hm

/-- The text in which some containers are reported, with nothing unknown about them. -/
def printed (cs : List Container) : String := pretty (.array (cs.map (report · [])))

theorem renders_printed {cs : List Container} (h : ∀ c ∈ cs, IsReportable c) :
    Renders Admits cs (printed cs) := by
  refine ⟨_, ⟨_, rfl, ?_⟩, isText_pretty (.array fun j hj => ?_)⟩
  · refine List.forall₂_map_right_iff.mpr (List.forall₂_same.mpr fun c hc => ?_)
    exact isListed_report (h c hc) fun _ hm => absurd hm List.not_mem_nil
  · obtain ⟨c, -, rfl⟩ := List.mem_map.mp hj
    exact isNumbered_report c fun _ hm => absurd hm List.not_mem_nil

/-! ### All renderings are read -/

theorem read?_of_isListed {cs : List Container} {j : Json} {text : String}
    (hlist : IsList (IsListed (·.isSome)) cs j) (htext : IsText j text) :
    read? text = some cs := by
  rw [read?, read?_of_isText htext]
  exact list?_of_isList hlist fun _ _ => container?_of_isListed

/-- Whatever text renders a list of containers is read as that list, if the names of
    unknown members spell texts. -/
theorem read?_of_renders {cs : List Container} {text : String} (h : Renders (·.isSome) cs text) :
    read? text = some cs := by
  obtain ⟨j, hlist, htext⟩ := h
  exact read?_of_isListed hlist htext

theorem isNumber_zero : IsNumber ['0'] := by
  change IsNumber ([] ++ (['0'] ++ ([] ++ [])))
  exact .mk (Or.inl rfl) (Or.inl rfl) (Or.inl rfl) (Or.inl rfl)

/-- A container with much to escape in it. -/
def quotedContainer : Container where
  name := "a \"b\""
  status := .other "Paused\n"
  config := .ofList [("note", "\\u0041\t")]
  devices := .ofList [("disk", .make .disk [("source", "/srv")])]
  ipv4 := some "10.0.3.17"

theorem read?_of_renders_quotedContainer :
    let text := pretty (.array [report quotedContainer
      [(some "created", .number ['0']), (some "profiles", .array [.string none, .bool true])]])
    Renders (·.isSome) [quotedContainer] text ∧ read? text = some [quotedContainer] := by
  intro text
  have hreportable : IsReportable quotedContainer := by
    refine ⟨⟨"Paused\n", by decide⟩, fun n d hd => ?_⟩
    rw [quotedContainer, Dict.get?_ofList (by simp), List.mem_singleton, Prod.mk.injEq] at hd
    obtain ⟨-, rfl⟩ := hd
    exact ⟨⟨"disk", rfl⟩, by decide⟩
  have hrenders : Renders (·.isSome) [quotedContainer] text := by
    refine ⟨_, ⟨_, rfl, .cons (isListed_report hreportable ?_) .nil⟩, isText_pretty (.array ?_)⟩
    · simp
    · intro j hj
      cases List.mem_singleton.mp hj
      refine isNumbered_report _ fun m hm => ?_
      simp only [List.mem_cons, List.not_mem_nil, or_false] at hm
      rcases hm with rfl | rfl
      · exact .number isNumber_zero
      · refine .array fun j hj => ?_
        simp only [List.mem_cons, List.not_mem_nil, or_false] at hj
        rcases hj with rfl | rfl
        · exact .string none
        · exact .bool true
  exact ⟨hrenders, read?_of_renders hrenders⟩

/-- A container with nothing to it but its name. -/
def bareContainer : Container where
  name := "c"
  status := .stopped
  config := .empty
  devices := .empty
  ipv4 := none

/-- A member with half a surrogate pair for its name is refused, unknown though it is. -/
theorem unpaired_name_refused :
    let text := pretty (.array [report bareContainer [(none, .number ['0'])]])
    Renders (fun _ => True) [bareContainer] text ∧ read? text = none := by
  intro text
  have hreportable : IsReportable bareContainer :=
    ⟨⟨"stopped", by decide⟩, fun n d hd => by cases hd⟩
  have hnumbered : (Json.array [report bareContainer [(none, .number ['0'])]]).IsNumbered := by
    refine .array fun j hj => ?_
    cases List.mem_singleton.mp hj
    refine isNumbered_report _ fun m hm => ?_
    cases List.mem_singleton.mp hm
    exact .number isNumber_zero
  constructor
  · refine ⟨_, ⟨_, rfl, .cons (isListed_report hreportable ?_) .nil⟩, isText_pretty hnumbered⟩
    simp
  · rw [read?, read?_pretty hnumbered]
    rfl

end BuildTargets.Listing
