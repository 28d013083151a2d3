/-
  BuildTargets/Dict.lean
  ======================
  **Dictionaries: finite maps kept in the order of their keys.**

  Configuration tags, device properties, devices, containers, pending
  operations and the file tree are all dictionaries.  A `Dict` is its list of
  entries, strictly ascending by key; so iterating over it *is* iterating in
  key order, and two dictionaries with the same look-ups are equal (`ext_get?`).

  The look-up `get?` is the view: `get?_insert`, `get?_erase` and `get?_empty`
  say all there is to say about the operations.
-/
namespace BuildTargets

/-- A finite map with its entries in strictly ascending key order. -/
structure Dict (κ α : Type) [LT κ] where
  /-- The entries in key order. -/
  toList : List (κ × α)
  sorted : toList.Pairwise (fun a b => a.1 < b.1)

namespace Dict

variable {κ α β : Type} [LT κ] [DecidableLT κ]

/-! ### Entry lists -/

def insertEntry (k : κ) (a : α) : List (κ × α) → List (κ × α)
  | [] => [(k, a)]
  | e :: es =>
    if k < e.1 then (k, a) :: e :: es
    else if e.1 < k then e :: insertEntry k a es
    else (k, a) :: es

def lookupEntry (k : κ) : List (κ × α) → Option α
  | [] => none
  | e :: es => if k < e.1 || e.1 < k then lookupEntry k es else some e.2

/-- The entries without a key. -/
def eraseEntry (k : κ) (es : List (κ × α)) : List (κ × α) :=
  es.filter fun e => k < e.1 || e.1 < k

variable [LE κ] [Std.IsLinearOrder κ] [Std.LawfulOrderLT κ]

omit [DecidableLT κ] in
theorem eq_of_not_lt {a b : κ} (h₁ : ¬a < b) (h₂ : ¬b < a) : a = b :=
  Std.le_antisymm (Std.not_lt.mp h₂) (Std.not_lt.mp h₁)

omit [LE κ] [Std.IsLinearOrder κ] [Std.LawfulOrderLT κ] in
theorem mem_insertEntry {k : κ} {a : α} {es : List (κ × α)} {x : κ × α}
    (h : x ∈ insertEntry k a es) : x = (k, a) ∨ x ∈ es := by
  induction es with
  | nil => simpa [insertEntry] using h
  | cons e es ih =>
    rw [insertEntry] at h
    split at h
    · simpa using h
    · split at h
      · rcases List.mem_cons.mp h with rfl | h
        · exact Or.inr (List.mem_cons_self ..)
        · exact (ih h).imp_right (List.mem_cons_of_mem _)
      · rcases List.mem_cons.mp h with rfl | h
        · exact Or.inl rfl
        · exact Or.inr (List.mem_cons_of_mem _ h)

theorem insertEntry_sorted (k : κ) (a : α) {es : List (κ × α)}
    (h : es.Pairwise (fun a b => a.1 < b.1)) :
    (insertEntry k a es).Pairwise (fun a b => a.1 < b.1) := by
  induction es with
  | nil => simp [insertEntry]
  | cons e es ih =>
    obtain ⟨he, hes⟩ := List.pairwise_cons.mp h
    rw [insertEntry]
    split
    · next hlt =>
      refine List.pairwise_cons.mpr ⟨fun x hx => ?_, h⟩
      rcases List.mem_cons.mp hx with rfl | hx
      · exact hlt
      · exact Std.lt_trans hlt (he x hx)
    · next hnlt =>
      split
      · next hgt =>
        refine List.pairwise_cons.mpr ⟨fun x hx => ?_, ih hes⟩
        rcases mem_insertEntry hx with rfl | hx
        · exact hgt
        · exact he x hx
      · next hngt =>
        have hk : k = e.1 := eq_of_not_lt hnlt hngt
        exact List.pairwise_cons.mpr ⟨fun x hx => hk ▸ he x hx, hes⟩

theorem lookupEntry_insertEntry (k k' : κ) (a : α) (es : List (κ × α)) :
    lookupEntry k' (insertEntry k a es) =
      if k' < k || k < k' then lookupEntry k' es else some a := by
  induction es with
  | nil => simp [insertEntry, lookupEntry]
  | cons e es ih =>
    rw [insertEntry]
    split
    · simp [lookupEntry]
    · next h₁ =>
      split
      · next h₂ =>
        simp only [lookupEntry, ih]
        by_cases hk : (k' < k || k < k') = true
        · simp [hk]
        · simp only [hk, if_false, Bool.false_eq_true]
          have hkk : k' = k := by
            simp only [Bool.or_eq_true, decide_eq_true_eq, not_or] at hk
            exact eq_of_not_lt hk.1 hk.2
          subst hkk
          simp [h₂]
      · next h₂ =>
        have hke : k = e.1 := eq_of_not_lt h₁ h₂
        subst hke
        simp only [lookupEntry]
        split <;> simp_all

omit [LE κ] [Std.IsLinearOrder κ] [Std.LawfulOrderLT κ] in
theorem lookupEntry_eq_none {k : κ} {es : List (κ × α)} (h : ∀ e ∈ es, k < e.1) :
    lookupEntry k es = none := by
  induction es with
  | nil => rfl
  | cons e es ih =>
    have he := h e (List.mem_cons_self ..)
    simp only [lookupEntry, he, decide_true, Bool.true_or, if_true]
    exact ih fun x hx => h x (List.mem_cons_of_mem _ hx)

theorem lookupEntry_eq_some_iff {k : κ} {a : α} {es : List (κ × α)}
    (h : es.Pairwise (fun a b => a.1 < b.1)) : lookupEntry k es = some a ↔ (k, a) ∈ es := by
  induction es with
  | nil => simp [lookupEntry]
  | cons e es ih =>
    obtain ⟨he, hes⟩ := List.pairwise_cons.mp h
    simp only [lookupEntry]
    split
    · next hne =>
      rw [ih hes, List.mem_cons]
      refine ⟨Or.inr, fun hm => hm.resolve_left fun heq => ?_⟩
      subst heq
      simp [Std.lt_irrefl] at hne
    · next heq =>
      simp only [Bool.or_eq_true, decide_eq_true_eq, not_or] at heq
      have hk : k = e.1 := eq_of_not_lt heq.1 heq.2
      subst hk
      rw [Option.some.injEq, List.mem_cons]
      refine ⟨fun h => Or.inl (by rw [← h]), fun h => ?_⟩
      rcases h with h | h
      · rw [← h]
      · exact absurd (he _ h) (Std.lt_irrefl)

theorem lookupEntry_eraseEntry (k k' : κ) (es : List (κ × α)) :
    lookupEntry k' (eraseEntry k es) =
      if k' < k || k < k' then lookupEntry k' es else none := by
  induction es with
  | nil => simp [eraseEntry, lookupEntry]
  | cons e es ih =>
    rw [eraseEntry] at ih ⊢
    rw [List.filter_cons]
    by_cases h : (k < e.1 || e.1 < k) = true
    · simp only [h, if_true, lookupEntry, ih]
      by_cases hk : (k' < k || k < k') = true
      · simp [hk]
      · simp only [hk, if_false, Bool.false_eq_true]
        have hkk : k' = k := by
          simp only [Bool.or_eq_true, decide_eq_true_eq, not_or] at hk
          exact eq_of_not_lt hk.1 hk.2
        subst hkk
        simp [h]
    · simp only [h, if_false, Bool.false_eq_true, lookupEntry, ih]
      have hke : k = e.1 := by
        simp only [Bool.or_eq_true, decide_eq_true_eq, not_or] at h
        exact eq_of_not_lt h.1 h.2
      subst hke
      split <;> rfl

omit [LE κ] [Std.IsLinearOrder κ] [Std.LawfulOrderLT κ] in
theorem eraseEntry_cons_of_lt {e : κ × α} {es : List (κ × α)} {k : κ} (h : e.1 < k) :
    eraseEntry k (e :: es) = e :: eraseEntry k es := by
  rw [eraseEntry, List.filter_cons_of_pos (by simp [h])]
  rfl

omit [Std.IsLinearOrder κ] in
theorem eraseEntry_cons_self {e : κ × α} {es : List (κ × α)} (h : ∀ x ∈ es, e.1 < x.1) :
    eraseEntry e.1 (e :: es) = es := by
  rw [eraseEntry, List.filter_cons_of_neg (by simp [Std.lt_irrefl]), List.filter_eq_self]
  intro x hx
  simp [h x hx]

/-- To set a key that is there is to replace its entry. -/
theorem insertEntry_eq_map [DecidableEq κ] {k : κ} {a b : α} {es : List (κ × α)}
    (hsorted : es.Pairwise (fun a b => a.1 < b.1)) (h : lookupEntry k es = some a) :
    insertEntry k b es = es.map fun e => if e.1 = k then (k, b) else e := by
  induction es with
  | nil => cases h
  | cons e es ih =>
    obtain ⟨he, hes⟩ := List.pairwise_cons.mp hsorted
    rw [insertEntry, List.map_cons]
    split
    · next hlt =>
      have hnone : lookupEntry k (e :: es) = none := by
        refine lookupEntry_eq_none fun x hx => ?_
        rcases List.mem_cons.mp hx with rfl | hx
        · exact hlt
        · exact Std.lt_trans hlt (he x hx)
      rw [hnone] at h
      cases h
    · next hnlt =>
      split
      · next hgt =>
        have hne : e.1 ≠ k := fun heq => Std.lt_irrefl (heq ▸ hgt)
        rw [lookupEntry, if_pos (by simp [hgt])] at h
        rw [if_neg hne, ih hes h]
      · next hngt =>
        have hk : e.1 = k := eq_of_not_lt hngt hnlt
        rw [if_pos hk]
        congr 1
        refine ((List.map_congr_left fun x hx => ?_).trans (List.map_id es)).symm
        have hne : x.1 ≠ k := fun heq => Std.lt_irrefl (heq ▸ hk ▸ he x hx)
        rw [if_neg hne]
        rfl

/-! ### Operations -/

def empty : Dict κ α := ⟨[], List.Pairwise.nil⟩

instance : Inhabited (Dict κ α) := ⟨empty⟩

def get? (d : Dict κ α) (k : κ) : Option α := lookupEntry k d.toList

def contains (d : Dict κ α) (k : κ) : Bool := (d.get? k).isSome

def insert (d : Dict κ α) (k : κ) (a : α) : Dict κ α :=
  ⟨insertEntry k a d.toList, insertEntry_sorted k a d.sorted⟩

def erase (d : Dict κ α) (k : κ) : Dict κ α :=
  ⟨eraseEntry k d.toList, d.sorted.filter _⟩

/-- Sets keys one after the other; the last value given for a key counts. -/
def ofList (es : List (κ × α)) : Dict κ α :=
  es.foldl (fun d e => d.insert e.1 e.2) empty

def keys (d : Dict κ α) : List κ := d.toList.map (·.1)

/-- The values in key order. -/
def values (d : Dict κ α) : List α := d.toList.map (·.2)

def filterKeys (p : κ → Bool) (d : Dict κ α) : Dict κ α :=
  ⟨d.toList.filter fun e => p e.1, d.sorted.filter _⟩

def map (f : α → β) (d : Dict κ α) : Dict κ β :=
  ⟨d.toList.map fun e => (e.1, f e.2), d.sorted.map _ fun _ _ h => h⟩

/-! ### The view -/

omit [LE κ] [Std.IsLinearOrder κ] [Std.LawfulOrderLT κ] in
@[simp] theorem get?_empty (k : κ) : (empty : Dict κ α).get? k = none := rfl

theorem get?_insert (d : Dict κ α) (k k' : κ) (a : α) [DecidableEq κ] :
    (d.insert k a).get? k' = if k' = k then some a else d.get? k' := by
  rw [get?, insert, lookupEntry_insertEntry]
  by_cases h : k' = k
  · subst h
    simp [Std.lt_irrefl]
  · rw [if_neg h, if_pos]
    · rfl
    · by_cases h₁ : k' < k
      · simp [h₁]
      · by_cases h₂ : k < k'
        · simp [h₂]
        · exact absurd (eq_of_not_lt h₁ h₂) h

@[simp] theorem get?_insert_self (d : Dict κ α) (k : κ) (a : α) :
    (d.insert k a).get? k = some a := by
  rw [get?, insert, lookupEntry_insertEntry]
  simp [Std.lt_irrefl]

theorem get?_erase (d : Dict κ α) (k k' : κ) [DecidableEq κ] :
    (d.erase k).get? k' = if k' = k then none else d.get? k' := by
  rw [get?, erase, lookupEntry_eraseEntry]
  by_cases h : k' = k
  · subst h
    simp [Std.lt_irrefl]
  · rw [if_neg h, if_pos]
    · rfl
    · by_cases h₁ : k' < k
      · simp [h₁]
      · by_cases h₂ : k < k'
        · simp [h₂]
        · exact absurd (eq_of_not_lt h₁ h₂) h

/-- An entry is a key with its value. -/
theorem get?_eq_some_iff {d : Dict κ α} {k : κ} {a : α} : d.get? k = some a ↔ (k, a) ∈ d.toList :=
  lookupEntry_eq_some_iff d.sorted

omit [DecidableLT κ] [LE κ] [Std.IsLinearOrder κ] [Std.LawfulOrderLT κ] in
theorem eq_of_toList_eq {d e : Dict κ α} (h : d.toList = e.toList) : d = e := by
  cases d
  cases e
  simp only at h
  subst h
  rfl

/-- Two dictionaries with the same look-ups are the same. -/
theorem ext_get? {d e : Dict κ α} (h : ∀ k, d.get? k = e.get? k) : d = e := by
  refine eq_of_toList_eq ?_
  have hmem : ∀ x : κ × α, x ∈ d.toList ↔ x ∈ e.toList := fun x => by
    rw [← get?_eq_some_iff, ← get?_eq_some_iff, h]
  obtain ⟨ds, hd⟩ := d
  obtain ⟨es, he⟩ := e
  simp only at hmem ⊢
  clear h
  induction ds generalizing es with
  | nil =>
    cases es with
    | nil => rfl
    | cons e es => exact absurd ((hmem e).mpr (List.mem_cons_self ..)) (by simp)
  | cons x ds ih =>
    cases es with
    | nil => exact absurd ((hmem x).mp (List.mem_cons_self ..)) (by simp)
    | cons y es =>
      obtain ⟨hx, hds⟩ := List.pairwise_cons.mp hd
      obtain ⟨hy, hes⟩ := List.pairwise_cons.mp he
      have hxy : x = y := by
        rcases List.mem_cons.mp ((hmem x).mp (List.mem_cons_self ..)) with h | h
        · exact h
        · rcases List.mem_cons.mp ((hmem y).mpr (List.mem_cons_self ..)) with h' | h'
          · exact h'.symm
          · exact absurd (Std.lt_trans (hy x h) (hx y h')) Std.lt_irrefl
      subst hxy
      rw [ih hds es hes]
      intro z
      have hz := hmem z
      simp only [List.mem_cons] at hz
      constructor
      · intro h
        rcases hz.mp (Or.inr h) with rfl | h'
        · exact absurd (hx z h) Std.lt_irrefl
        · exact h'
      · intro h
        rcases hz.mpr (Or.inr h) with rfl | h'
        · exact absurd (hy z h) Std.lt_irrefl
        · exact h'

omit [DecidableLT κ] [LE κ] [Std.IsLinearOrder κ] [Std.LawfulOrderLT κ] in
instance [DecidableEq κ] [DecidableEq α] : DecidableEq (Dict κ α) := fun d e =>
  if h : d.toList = e.toList then .isTrue (eq_of_toList_eq h)
  else .isFalse fun he => h (he ▸ rfl)

/-- Setting a key to the value that it has changes nothing. -/
theorem insert_of_get? {d : Dict κ α} {k : κ} {a : α} [DecidableEq κ] (h : d.get? k = some a) :
    d.insert k a = d := by
  refine ext_get? fun k' => ?_
  rw [get?_insert]
  split
  · next hk => rw [hk, h]
  · rfl

theorem toList_insert {d : Dict κ α} {k : κ} {a b : α} [DecidableEq κ] (h : d.get? k = some a) :
    (d.insert k b).toList = d.toList.map fun e => if e.1 = k then (k, b) else e :=
  insertEntry_eq_map d.sorted h

/-- Taking a key away that is not there changes nothing. -/
theorem erase_of_get? {d : Dict κ α} {k : κ} [DecidableEq κ] (h : d.get? k = none) :
    d.erase k = d := by
  refine ext_get? fun k' => ?_
  rw [get?_erase]
  split
  · next hk => rw [hk, h]
  · rfl

/-- A key set and taken away again leaves the dictionary without it. -/
theorem erase_insert (d : Dict κ α) (k : κ) (a : α) [DecidableEq κ] :
    (d.insert k a).erase k = d.erase k := by
  refine ext_get? fun k' => ?_
  rw [get?_erase, get?_erase, get?_insert]
  split <;> rfl

end Dict

end BuildTargets
