/-
  BuildTargets/Proofs/Json/Decode.lean
  ====================================
  **Values that render data, and their decoding.**

  Each decoder has a relation beside it that says which values render a given datum:
  a record is an object with its fields in any order among members of other names
  (`IsRecord`), a dictionary one with an entry for each member (`IsDict`), a list an
  array (`IsList`).  The decoder gives back what was rendered.
-/
import BuildTargets.Json.Decode
import Mathlib.Data.List.Forall2

namespace BuildTargets

/-! ### Dictionaries from lists -/

namespace Dict

variable {κ α β : Type} [LT κ] [DecidableLT κ] [LE κ] [Std.IsLinearOrder κ]
  [Std.LawfulOrderLT κ] [DecidableEq κ]

theorem get?_foldl_insert {es : List (κ × α)} (h : (es.map (·.1)).Nodup) (d : Dict κ α) (k : κ)
    (a : α) : (es.foldl (fun d e => d.insert e.1 e.2) d).get? k = some a ↔
      (k, a) ∈ es ∨ k ∉ es.map (·.1) ∧ d.get? k = some a := by
  induction es generalizing d with
  | nil => simp
  | cons e es ih =>
    rw [List.map_cons, List.nodup_cons] at h
    rw [List.foldl_cons, ih h.2, get?_insert]
    by_cases hk : k = e.1
    · subst hk
      have hnot (b : α) : (e.1, b) ∉ es := fun hmem => h.1 (List.mem_map.mpr ⟨_, hmem, rfl⟩)
      simp only [hnot, h.1, if_true, Option.some.injEq, List.mem_cons, List.map_cons,
        false_or, or_false, not_false_eq_true, true_and, not_true, false_and]
      exact ⟨fun heq => Prod.ext rfl heq.symm, fun heq => (congrArg Prod.snd heq).symm⟩
    · have hne : (k, a) ≠ e := fun heq => hk (congrArg Prod.fst heq)
      simp [hk, hne]

/-- With no key twice, a dictionary has exactly the entries that it is made of. -/
theorem get?_ofList {es : List (κ × α)} (h : (es.map (·.1)).Nodup) (k : κ) (a : α) :
    (ofList es).get? k = some a ↔ (k, a) ∈ es := by
  rw [ofList, get?_foldl_insert h]
  simp

omit [DecidableLT κ] [Std.IsLinearOrder κ] [DecidableEq κ] in
theorem nodup_keys (d : Dict κ α) : (d.toList.map (·.1)).Nodup := by
  refine List.pairwise_map.mpr (d.sorted.imp fun {a b} hlt heq => ?_)
  rw [heq] at hlt
  exact Std.lt_irrefl hlt

omit [DecidableEq κ] in
theorem get?_map (f : α → β) (d : Dict κ α) (k : κ) : (d.map f).get? k = (d.get? k).map f := by
  refine Option.ext fun b => ?_
  rw [get?_eq_some_iff, Option.map_eq_some_iff, map, List.mem_map]
  constructor
  · rintro ⟨⟨k', a⟩, hmem, heq⟩
    cases heq
    exact ⟨a, get?_eq_some_iff.mpr hmem, rfl⟩
  · rintro ⟨a, hget, rfl⟩
    exact ⟨(k, a), get?_eq_some_iff.mp hget, rfl⟩

end Dict

namespace Json

variable {α β : Type} {j : Json}

/-! ### Lists -/

theorem mapM_of_forall₂ {γ : Type} {f : β → Option γ} {cs : List γ} {bs : List β}
    (h : List.Forall₂ (fun c b => f b = some c) cs bs) : bs.mapM f = some cs := by
  induction h with
  | nil => rfl
  | cons hhead _ ih =>
    rw [List.mapM_cons, hhead, ih]
    rfl

theorem exists_of_mem_mapM {γ : Type} {f : β → Option γ} {cs : List γ} {bs : List β}
    (h : bs.mapM f = some cs) {c : γ} (hc : c ∈ cs) : ∃ b ∈ bs, f b = some c := by
  induction bs generalizing cs with
  | nil =>
    cases h
    cases hc
  | cons b rest ih =>
    simp only [List.mapM_cons, bind, Option.bind_eq_some_iff] at h
    obtain ⟨c₁, hb, cs', hrest, heq⟩ := h
    cases heq
    rcases List.mem_cons.mp hc with rfl | hmem
    · exact ⟨b, List.mem_cons_self, hb⟩
    · obtain ⟨b', hb', hf⟩ := ih hrest hmem
      exact ⟨b', List.mem_cons_of_mem _ hb', hf⟩

/-- An array of values that render the items of a list, in their order. -/
def IsList (Renders : α → Json → Prop) (as : List α) (j : Json) : Prop :=
  ∃ items, j = .array items ∧ List.Forall₂ Renders as items

theorem list?_of_isList {Renders : α → Json → Prop} {value : Json → Option α} {as : List α}
    (h : IsList Renders as j) (hvalue : ∀ a j, Renders a j → value j = some a) :
    list? value j = some as := by
  obtain ⟨items, rfl, hitems⟩ := h
  exact mapM_of_forall₂ (hitems.imp hvalue)

/-- What the decoder of a list takes is taken from an item of the array. -/
theorem exists_of_mem_list? {value : Json → Option α} {as : List α}
    (h : list? value j = some as) :
    ∃ items, j = .array items ∧ ∀ a ∈ as, ∃ item ∈ items, value item = some a := by
  unfold list? at h
  split at h
  · exact ⟨_, rfl, fun a ha => exists_of_mem_mapM h ha⟩
  · cases h

/-! ### Dictionaries -/

/-- An object with a member for each entry of a dictionary, in any order. -/
def IsDict (Renders : α → Json → Prop) (d : Dict String α) (j : Json) : Prop :=
  ∃ entries members, entries.Perm d.toList ∧ j = .object members ∧
    List.Forall₂ (fun (e : String × α) (m : Option String × Json) =>
      m.1 = some e.1 ∧ Renders e.2 m.2) entries members

/-- What the decoder of an entry gives may have to be converted. -/
theorem dict?_of_isDict {Renders : α → Json → Prop} {value : Json → Option β} {f : β → α}
    {d : Dict String α} (h : IsDict Renders d j)
    (hvalue : ∀ a j, Renders a j → ∃ b, value j = some b ∧ f b = a) :
    ∃ found, dict? value j = some found ∧ found.map f = d := by
  obtain ⟨entries, members, hperm, rfl, hmembers⟩ := h
  have hentries : ∃ found : List (String × β),
      List.Forall₂ (fun (e : String × β) (m : Option String × Json) =>
        (do return (← m.1, ← value m.2) : Option (String × β)) = some e) found members ∧
      found.map (fun e => (e.1, f e.2)) = entries := by
    clear hperm
    induction hmembers with
    | nil => exact ⟨[], .nil, rfl⟩
    | @cons e m entries members hhead _ ih =>
      obtain ⟨found, hfound, hmap⟩ := ih
      obtain ⟨hname, hrenders⟩ := hhead
      obtain ⟨b, hb, hf⟩ := hvalue e.2 m.2 hrenders
      refine ⟨(e.1, b) :: found, .cons ?_ hfound, ?_⟩
      · rw [hname, hb]
        rfl
      · rw [List.map_cons, hmap, hf]
  obtain ⟨found, hfound, hmap⟩ := hentries
  have hkeys : (found.map (·.1)).Nodup := by
    have hsame : found.map (·.1) = entries.map (·.1) := by
      rw [← hmap, List.map_map]
      rfl
    rw [hsame]
    exact (hperm.map _).nodup_iff.mpr d.nodup_keys
  refine ⟨Dict.ofList found, ?_, Dict.ext_get? fun k => Option.ext fun a => ?_⟩
  · rw [dict?, mapM_of_forall₂ hfound]
    rfl
  · rw [Dict.get?_map, Option.map_eq_some_iff, Dict.get?_eq_some_iff, ← hperm.mem_iff, ← hmap,
      List.mem_map]
    constructor
    · rintro ⟨b, hget, rfl⟩
      exact ⟨(k, b), (Dict.get?_ofList hkeys k b).mp hget, rfl⟩
    · rintro ⟨⟨k', b⟩, hmem, heq⟩
      cases heq
      exact ⟨b, (Dict.get?_ofList hkeys _ b).mpr hmem, rfl⟩

theorem dict?_of_isDict_id {Renders : α → Json → Prop} {value : Json → Option α}
    {d : Dict String α} (h : IsDict Renders d j)
    (hvalue : ∀ a j, Renders a j → value j = some a) : dict? value j = some d := by
  obtain ⟨found, hfound, hmap⟩ := dict?_of_isDict (f := id) h fun a j hrenders =>
    ⟨a, hvalue a j hrenders, rfl⟩
  rw [hfound, ← hmap]
  congr 1
  exact Dict.ext_get? fun k => by rw [Dict.get?_map, Option.map_id, id]

/-! ### Records -/

/-- An object with some fields, in any order among members of unknown names.  What
    these names may be like is left open. -/
def IsRecord (Admits : Option String → Prop) (known : List String) (fields : List (String × Json))
    (j : Json) : Prop :=
  ∃ members unknown, j = .object members ∧
    members.Perm (fields.map (fun f => (some f.1, f.2)) ++ unknown) ∧
    ∀ m ∈ unknown, Admits m.1 ∧ ∀ name ∈ known, m.1 ≠ some name

/-- The known fields among some members. -/
def fieldsOf (known : List String) (members : List (Option String × Json)) :
    List (String × Json) :=
  members.filterMap fun m =>
    m.1.bind fun name => if known.contains name then some (name, m.2) else none

theorem collectFields_eq {known : List String} {found : Dict String Json}
    {members : List (Option String × Json)} (hnames : ∀ m ∈ members, m.1.isSome)
    (hnodup : ((fieldsOf known members).map (·.1)).Nodup)
    (hnew : ∀ name ∈ (fieldsOf known members).map (·.1), found.get? name = none) :
    collectFields known found members =
      some ((fieldsOf known members).foldl (fun d e => d.insert e.1 e.2) found) := by
  induction members generalizing found with
  | nil => rfl
  | cons m members ih =>
    have hrest : ∀ m ∈ members, m.1.isSome := fun m hm => hnames m (List.mem_cons_of_mem _ hm)
    obtain ⟨name?, j⟩ := m
    obtain ⟨name, rfl⟩ := Option.isSome_iff_exists.mp (hnames _ List.mem_cons_self)
    by_cases hknown : known.contains name = true
    · have hfields : fieldsOf known ((some name, j) :: members) =
          (name, j) :: fieldsOf known members :=
        List.filterMap_cons_some (by rw [Option.bind_some, if_pos hknown])
      rw [hfields, List.map_cons, List.nodup_cons] at hnodup
      rw [hfields, List.map_cons] at hnew
      have habsent : found.contains name = false := by
        rw [Dict.contains, hnew name List.mem_cons_self]
        rfl
      rw [collectFields, if_pos hknown, habsent, hfields, List.foldl_cons]
      refine ih hrest hnodup.2 fun other hother => ?_
      have hne : other ≠ name := fun heq => hnodup.1 (heq ▸ hother)
      rw [Dict.get?_insert, if_neg hne]
      exact hnew other (List.mem_cons_of_mem _ hother)
    · have hfields : fieldsOf known ((some name, j) :: members) = fieldsOf known members :=
        List.filterMap_cons_none (by rw [Option.bind_some, if_neg hknown])
      rw [hfields] at hnodup hnew ⊢
      rw [collectFields, if_neg hknown]
      exact ih hrest hnodup hnew

/-- A record has exactly the fields that were rendered, if all names spell texts. -/
theorem record?_of_isRecord {known : List String} {fields : List (String × Json)}
    (h : IsRecord (·.isSome) known fields j) (hsub : (fields.map (·.1)).Sublist known)
    (hknown : known.Nodup) :
    ∃ found, record? known j = some found ∧
      ∀ name value, found.get? name = some value ↔ (name, value) ∈ fields := by
  obtain ⟨members, unknown, rfl, hperm, hunknown⟩ := h
  have hrendered : fieldsOf known (fields.map fun f => (some f.1, f.2)) = fields := by
    have hall : ∀ f ∈ fields, known.contains f.1 = true := fun f hf =>
      List.contains_iff_mem.mpr (hsub.subset (List.mem_map_of_mem hf))
    clear hperm hsub
    induction fields with
    | nil => rfl
    | cons f fields ih =>
      have hf := hall f List.mem_cons_self
      rw [List.map_cons, fieldsOf, List.filterMap_cons_some (by rw [Option.bind_some, if_pos hf])]
      exact congrArg (f :: ·) (ih fun f' hf' => hall f' (List.mem_cons_of_mem _ hf'))
  have hnone : fieldsOf known unknown = [] := by
    refine List.filterMap_eq_nil_iff.mpr fun m hm => ?_
    cases hname : m.1 with
    | none => rfl
    | some name =>
      rw [Option.bind_some, if_neg]
      intro hcontains
      exact (hunknown m hm).2 name (List.contains_iff_mem.mp hcontains) hname
  have hfields : (fieldsOf known members).Perm fields := by
    have h := hperm.filterMap fun m =>
      m.1.bind fun name => if known.contains name then some (name, m.2) else none
    rw [List.filterMap_append] at h
    refine h.trans (.of_eq ?_)
    exact (congrArg₂ (· ++ ·) hrendered hnone).trans (List.append_nil _)
  have hnames : ∀ m ∈ members, m.1.isSome := by
    intro m hm
    rcases List.mem_append.mp (hperm.mem_iff.mp hm) with hm | hm
    · obtain ⟨f, -, rfl⟩ := List.mem_map.mp hm
      rfl
    · exact (hunknown m hm).1
  have hnodup : ((fieldsOf known members).map (·.1)).Nodup :=
    (hfields.map _).nodup_iff.mpr (hsub.nodup hknown)
  refine ⟨_, collectFields_eq hnames hnodup fun _ _ => rfl, fun name value => ?_⟩
  rw [← hfields.mem_iff]
  exact Dict.get?_ofList hnodup name value

variable {fields : Dict String Json} {name : String} {value : Json → Option α} {a : α}

theorem required_of_get? (hget : fields.get? name = some j) (hvalue : value j = some a) :
    required fields name value = some a := by
  rw [required, hget]
  exact hvalue

theorem optional_of_get? {absent : α} (hget : fields.get? name = some j)
    (hvalue : value j = some a) : optional fields name absent value = some a := by
  rw [optional, hget]
  exact hvalue

theorem optional_of_none {absent : α} (hget : fields.get? name = none) :
    optional fields name absent value = some absent := by
  rw [optional, hget]

end Json

end BuildTargets
