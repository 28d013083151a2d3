/-
  BuildTargets/Proofs/Client/Arguments.lean
  =========================================
  **Requests can be read off the arguments of the client.**

  A device is reported as a flat map and passed on as a kind and `key=value`
  arguments.  An argument is read by cutting it at its first `=`, so values may hold
  what they like and only keys have to be free of it (`Device.ofArguments_arguments`).
  Which request was made shows in the words in front of them, so a request is read back
  from the whole list (`Request.ofArguments?_arguments`), and no two requests are
  written alike.
-/
import BuildTargets.Proofs.Client
import BuildTargets.Proofs.Json.Decode
import BuildTargets.Proofs.Text.Utf8

namespace BuildTargets

/-- A dictionary is made of its entries. -/
theorem Dict.ofList_toList {α : Type} (d : Dict String α) : ofList d.toList = d :=
  ext_get? fun k => Option.ext fun a => by rw [get?_ofList d.nodup_keys, get?_eq_some_iff]

namespace Device

/-! ### Properties -/

/-- A property as it is written. -/
def written (property : String × String) : String := property.1 ++ "=" ++ property.2

/-- An argument cut at its first `=`. -/
def setting (argument : String) : String × String :=
  (String.ofList (argument.toList.takeWhile (· ≠ '=')),
    String.ofList ((argument.toList.dropWhile (· ≠ '=')).drop 1))

/-- The device of a kind with the properties that are written. -/
def ofArguments (kind : String) (arguments : List String) : Device :=
  ⟨.ofName kind, .ofList (arguments.map setting)⟩

/-- What is written about a device says all about it. -/
structure IsWritable (d : Device) : Prop where
  named : ∃ name, d.kind = .ofName name
  keys : ∀ key ∈ d.properties.keys, '=' ∉ key.toList

theorem arguments_eq (d : Device) : d.arguments = d.properties.toList.map written := rfl

variable {d : Device} {report : Dict String String} {kind : String}

theorem setting_written {key : String} (hkey : '=' ∉ key.toList) (value : String) :
    setting (written (key, value)) = (key, value) := by
  have hequals : (written (key, value)).toList = key.toList ++ '=' :: value.toList := by
    simp [written]
  have hbefore : ∀ c ∈ key.toList, decide (c ≠ '=') = true := by
    intro c hc
    rw [decide_eq_true_iff]
    rintro rfl
    exact hkey hc
  rw [setting, hequals, List.takeWhile_append_of_pos hbefore, List.dropWhile_append_of_pos hbefore]
  simp

theorem map_setting_arguments (h : ∀ key ∈ d.properties.keys, '=' ∉ key.toList) :
    d.arguments.map setting = d.properties.toList := by
  have hread : ∀ e ∈ d.properties.toList, setting (written e) = e := fun e he =>
    setting_written (h e.1 (List.mem_map.mpr ⟨e, he, rfl⟩)) e.2
  rw [arguments_eq, List.map_map]
  exact (List.map_congr_left hread).trans (List.map_id _)

theorem ofArguments_arguments (h : d.IsWritable) : ofArguments d.kind.name d.arguments = d := by
  obtain ⟨name, hname⟩ := h.named
  rw [ofArguments, map_setting_arguments h.keys, Dict.ofList_toList, hname,
    DeviceKind.name_ofName, ← hname]

/-! ### Reports -/

theorem kind_ofReport (hkind : report.get? "type" = some kind) :
    (ofReport report).kind = .ofName kind := by
  rw [ofReport, hkind]

theorem mem_properties_ofReport {e : String × String} :
    e ∈ (ofReport report).properties.toList ↔ e.1 ≠ "type" ∧ report.get? e.1 = some e.2 := by
  rw [← Dict.get?_eq_some_iff, ofReport, Dict.get?_erase]
  split
  · next h => simp [h]
  · next h => simp [h]

theorem keys_ofReport (h : ∀ key ∈ report.keys, '=' ∉ key.toList) :
    ∀ key ∈ (ofReport report).properties.keys, '=' ∉ key.toList := by
  intro key hkey
  obtain ⟨e, he, rfl⟩ := List.mem_map.mp hkey
  have hget := (mem_properties_ofReport.mp he).2
  exact h e.1 (List.mem_map.mpr ⟨e, Dict.get?_eq_some_iff.mp hget, rfl⟩)

/-- Nothing of a report is lost but the place of the kind among the rest. -/
theorem insert_type_ofReport (hkind : report.get? "type" = some kind) :
    (ofReport report).properties.insert "type" kind = report := by
  refine Dict.ext_get? fun key => ?_
  rw [Dict.get?_insert]
  split
  · next h => rw [h, hkind]
  · next h => rw [ofReport, Dict.get?_erase, if_neg h]

end Device

namespace Request

/-- The request that the client is started for with some arguments. -/
def ofArguments? : List String → Option Request
  | "config" :: "device" :: "add" :: container :: name :: kind :: properties =>
    some (.addDevice container name (.ofArguments kind properties))
  | ["config", "device", "remove", container, name] => some (.removeDevice container name)
  | ["stop", container] => some (.stop container false)
  | ["stop", container, "--force"] => some (.stop container true)
  | ["delete", container] => some (.delete container)
  | _ => none

/-- What is written about a request says all about it. -/
def IsWritable : Request → Prop
  | addDevice _ _ device => device.IsWritable
  | _ => True

theorem ofArguments?_arguments {r : Request} (h : r.IsWritable) :
    ofArguments? r.arguments = some r := by
  cases r with
  | addDevice container name device =>
    have hdevice := Device.ofArguments_arguments h
    simp [arguments, ofArguments?, hdevice]
  | removeDevice container name => rfl
  | stop container force => cases force <;> rfl
  | delete container => rfl

theorem arguments_inj {r r' : Request} (h : r.IsWritable) (h' : r'.IsWritable) :
    r.arguments = r'.arguments ↔ r = r' := by
  constructor
  · intro hsame
    have hread := ofArguments?_arguments h
    rw [hsame, ofArguments?_arguments h', Option.some.injEq] at hread
    exact hread.symm
  · rintro rfl
    rfl

/-- From a report to the client nothing is lost.  The device of a report is passed on as its
    kind and its other properties in the order of their keys, and the report is read off
    these again.  Of requests that can be written, no two start the client alike. -/
theorem arguments_lossless {report : Dict String String} {kind : String}
    (hkind : report.get? "type" = some kind) (hkeys : ∀ key ∈ report.keys, '=' ∉ key.toList)
    (container name : String) :
    (∃ properties : List (String × String),
      (addDevice container name (.ofReport report)).arguments =
        ["config", "device", "add", container, name, kind] ++ properties.map Device.written ∧
      properties.Pairwise (fun e f => Text.Precedes e.1 f.1) ∧
      (∀ e, e ∈ properties ↔ e.1 ≠ "type" ∧ report.get? e.1 = some e.2) ∧
      (Dict.ofList ((properties.map Device.written).map Device.setting)).insert "type" kind =
        report) ∧
    (∀ r r' : Request, r.IsWritable → r'.IsWritable → (r.arguments = r'.arguments ↔ r = r')) ∧
    ∀ (r : Request) (c : Client) (run : ClientRun), c.start r.arguments = .ok run →
      (stateOf ((Service.submit r : Action Client Operation).run c)).log =
        c.log ++ [r.arguments] := by
  refine ⟨⟨(Device.ofReport report).properties.toList, ?_, ?_, ?_, ?_⟩, ?_, ?_⟩
  · rw [arguments, Device.kind_ofReport hkind, DeviceKind.name_ofName]
    rfl
  · exact (Device.ofReport report).properties.sorted.imp Text.precedes_of_lt
  · exact fun e => Device.mem_properties_ofReport
  · have hread := Device.map_setting_arguments (Device.keys_ofReport hkeys)
    rw [Device.arguments_eq] at hread
    rw [hread, Dict.ofList_toList, Device.insert_type_ofReport hkind]
  · exact fun r r' h h' => arguments_inj h h'
  · intro r c run hstart
    rw [Client.service_submit, Client.run_accept, hstart]
    rfl

/-- Empty keys and values, and `=` in values, are no harm; a kind may be called anything. -/
theorem arguments_lossless_oddValues :
    let report := Dict.ofList
      [("type", "type=disk"), ("Z", "a=b==c"), ("", "="), ("ä", ""), ("z", "")]
    let request := addDevice "c" "--force" (.ofReport report)
    report.get? "type" = some "type=disk" ∧ (∀ key ∈ report.keys, '=' ∉ key.toList) ∧
      request.arguments = ["config", "device", "add", "c", "--force", "type=disk", "==",
        "Z=a=b==c", "z=", "ä="] ∧
      (Dict.ofList ((request.arguments.drop 6).map Device.setting)).insert "type" "type=disk" =
        report ∧
      (stop "c" true).arguments ≠ (stop "c" false).arguments := by
  intro report request
  have hkind : report.get? "type" = some "type=disk" := by decide +kernel
  have hkeys : ∀ key ∈ report.keys, '=' ∉ key.toList := by decide +kernel
  obtain ⟨⟨properties, hwritten, -, -, hback⟩, hapart, -⟩ :=
    arguments_lossless hkind hkeys "c" "--force"
  refine ⟨hkind, hkeys, by decide +kernel, ?_, ?_⟩
  · show (Dict.ofList ((request.arguments.drop 6).map Device.setting)).insert _ _ = report
    rw [hwritten]
    exact hback
  · rw [Ne, hapart (stop "c" true) (stop "c" false) trivial trivial]
    decide

end Request

end BuildTargets
