/-
  BuildTargets/Proofs/Repair/Recollection.lean
  ============================================
  **A driver that has been found is remembered, and nothing else is.**

  The driver is asked for time and again, by several seekers, and in between the
  host turns into another one (`Event`).  Each question is entered in a record, with
  the tree that it was asked on and its answer (`inquiries`).

  What a seeker remembers is what the record says of it: the first driver that it has
  been told (`told?`).  So a single answer follows from the record before it
  (`IsAnswered`): one who has been told of a driver is told the same one again, and
  everybody else has it looked for on the tree as it is.  `isAnswered_of_inquiries`
  carries this over all events, and what there is to say about whole records is read
  off it (`Remembers`).
-/
import BuildTargets.Proofs.Repair.Parts
import BuildTargets.Proofs.Tree.Proper

namespace BuildTargets.Driver

open BuildTargets

variable {β : Type}

/-! ### Questions and answers -/

/-- Something that happens around those who look for the driver. -/
inductive Event where
  /-- The host turns into another one. -/
  | turned (t : Tree)
  | asked (seeker : String)

/-- A question for the driver. -/
structure Inquiry where
  seeker : String
  /-- The host at the time of the question. -/
  tree : Tree
  answer : Except Failure (Option Driver)
deriving DecidableEq

/-- The questions among some events, each with the answer that it gets. -/
def inquiries (host : HostView) : World β → List Event → List Inquiry
  | _, [] => []
  | w, .turned t :: events => inquiries host { w with tree := t } events
  | w, .asked seeker :: events =>
    let r := (Driver.recall host seeker).run w
    ⟨seeker, w.tree, resultOf r⟩ :: inquiries host (stateOf r) events

/-- Who asks, and what the host is like then. -/
def questions : Tree → List Event → List (String × Tree)
  | _, [] => []
  | _, .turned t :: events => questions t events
  | t, .asked seeker :: events => (seeker, t) :: questions t events

/-- What one is told who remembers nothing. -/
def freshAnswer (host : HostView) (seeker : String) (t : Tree) : Except Failure (Option Driver) :=
  resultOf ((Driver.recall host seeker).run ({ service := (), tree := t } : World Unit))

/-! ### Looking for the driver -/

/-- The version file names the driver, and its libraries are there. -/
def IsBacked (host : HostView) (t : Tree) (driver : Driver) : Prop :=
  ∃ text, t.readText (host.path versionFile) = .ok text ∧ ofVersion? text = some driver ∧
    host.isPresent t driver.libraries = .ok true

/-- How a look at the host ends. -/
inductive Search (host : HostView) (t : Tree) : Except Failure (Option Driver) → Prop where
  | unreadable {e} (hread : t.readText (host.path versionFile) = .error e) :
      Search host t (.error (.io e))
  | unrecognised {text} (hread : t.readText (host.path versionFile) = .ok text)
      (hversion : ofVersion? text = none) : Search host t (.ok none)
  | hidden {text driver e} (hread : t.readText (host.path versionFile) = .ok text)
      (hversion : ofVersion? text = some driver)
      (hlibraries : host.isPresent t driver.libraries = .error e) : Search host t (.error (.io e))
  | lacking {text driver} (hread : t.readText (host.path versionFile) = .ok text)
      (hversion : ofVersion? text = some driver)
      (hlibraries : host.isPresent t driver.libraries = .ok false) : Search host t (.ok none)
  | found {driver} (hbacked : IsBacked host t driver) : Search host t (.ok (some driver))

variable {host : HostView} {w : World β} {seeker : String} {t : Tree} {driver : Driver}

theorem Search.isBacked (h : Search host t (.ok (some driver))) : IsBacked host t driver := by
  cases h with
  | found hbacked => exact hbacked

/-- What a look comes to, as an answer. -/
def answerOf : Except IoError (Option Driver) → Except Failure (Option Driver)
  | .ok found => .ok found
  | .error e => .error (.io e)

theorem search_find? (host : HostView) (t : Tree) : Search host t (answerOf (find? host t)) := by
  rw [Repair.find?_eq]
  cases hread : t.readText (host.path versionFile) with
  | error e => exact .unreadable hread
  | ok text =>
    dsimp only
    cases hversion : ofVersion? text with
    | none => exact .unrecognised hread hversion
    | some driver =>
      dsimp only
      cases hlibraries : host.isPresent t driver.libraries with
      | error e => exact .hidden hread hversion hlibraries
      | ok present =>
        cases present with
        | false => exact .lacking hread hversion hlibraries
        | true => exact .found ⟨text, hread, hversion, hlibraries⟩

/-! ### One question -/

theorem resultOf_recall (host : HostView) (w : World β) (seeker : String) :
    resultOf ((Driver.recall host seeker).run w) = match w.drivers.get? seeker with
      | some driver => .ok (some driver)
      | none => answerOf (find? host w.tree) := by
  rw [Repair.run_recall { host := host }, Repair.knownDriver]
  cases w.drivers.get? seeker with
  | some driver => rfl
  | none =>
    dsimp only
    cases find? host w.tree with
    | error e => rfl
    | ok found => cases found <;> rfl

theorem tree_recall (host : HostView) (w : World β) (seeker : String) :
    (stateOf ((Driver.recall host seeker).run w)).tree = w.tree := by
  rw [Repair.run_recall { host := host }]
  split <;> rfl

theorem freshAnswer_eq (host : HostView) (seeker : String) (t : Tree) :
    freshAnswer host seeker t = answerOf (find? host t) :=
  resultOf_recall host ({ service := (), tree := t } : World Unit) seeker

theorem search_freshAnswer (host : HostView) (seeker : String) (t : Tree) :
    Search host t (freshAnswer host seeker t) := by
  rw [freshAnswer_eq]
  exact search_find? host t

/-! ### What a seeker has been told -/

/-- The driver that an inquiry tells a seeker of. -/
def Inquiry.tells? (q : Inquiry) (seeker : String) : Option Driver :=
  if q.seeker = seeker then
    match q.answer with
    | .ok found => found
    | .error _ => none
  else none

/-- The first driver that a seeker has been told of. -/
def told? (past : List Inquiry) (seeker : String) : Option Driver :=
  past.findSome? (·.tells? seeker)

/-- A question is answered out of what its seeker has been told, or else by a look. -/
def IsAnswered (host : HostView) (past : List Inquiry) (q : Inquiry) : Prop :=
  q.answer = match told? past q.seeker with
    | some driver => .ok (some driver)
    | none => freshAnswer host q.seeker q.tree

/-- What is remembered is what has been told. -/
def Knows (w : World β) (past : List Inquiry) : Prop :=
  ∀ seeker, w.drivers.get? seeker = told? past seeker

theorem Inquiry.tells?_eq_some_iff {q : Inquiry} :
    q.tells? seeker = some driver ↔ q.seeker = seeker ∧ q.answer = .ok (some driver) := by
  unfold tells?
  split
  · next h =>
    cases q.answer with
    | ok found => simp [h]
    | error e => simp
  · next h => simp [h]

theorem told?_eq_none_iff {past : List Inquiry} : told? past seeker = none ↔
    ∀ p ∈ past, p.seeker = seeker → ∀ driver, p.answer ≠ .ok (some driver) := by
  unfold told?
  rw [List.findSome?_eq_none_iff]
  constructor
  · intro h p hp hseeker driver hanswer
    have htells := Inquiry.tells?_eq_some_iff.mpr ⟨hseeker, hanswer⟩
    rw [h p hp] at htells
    cases htells
  · intro h p hp
    refine Option.eq_none_iff_forall_ne_some.mpr fun driver htells => ?_
    obtain ⟨hseeker, hanswer⟩ := Inquiry.tells?_eq_some_iff.mp htells
    exact h p hp hseeker driver hanswer

theorem told?_append (past later : List Inquiry) (seeker : String) :
    told? (past ++ later) seeker = (told? past seeker).or (told? later seeker) :=
  List.findSome?_append

/-- The inquiry that told a seeker first. -/
theorem exists_first_of_told? {past : List Inquiry} (h : told? past seeker = some driver) :
    ∃ before p after, past = before ++ p :: after ∧ p.seeker = seeker ∧
      p.answer = .ok (some driver) ∧ told? before seeker = none := by
  obtain ⟨before, p, after, hpast, htells, hbefore⟩ := List.findSome?_eq_some_iff.mp h
  obtain ⟨hseeker, hanswer⟩ := Inquiry.tells?_eq_some_iff.mp htells
  exact ⟨before, p, after, hpast, hseeker, hanswer, List.findSome?_eq_none_iff.mpr hbefore⟩

/-- A driver that is told is remembered, and no other answer is. -/
theorem get?_drivers_recall (host : HostView) (w : World β) (seeker s : String) :
    (stateOf ((Driver.recall host seeker).run w)).drivers.get? s = (w.drivers.get? s).or
      (Inquiry.tells? ⟨seeker, w.tree, resultOf ((Driver.recall host seeker).run w)⟩ s) := by
  rw [Repair.run_recall { host := host }, Repair.knownDriver]
  cases hknown : w.drivers.get? seeker with
  | some driver =>
    dsimp only
    rw [Repair.remembering_eq_self hknown]
    by_cases hs : s = seeker
    · subst hs
      rw [stateOf_ok, hknown, Option.some_or]
    · have hother : seeker ≠ s := fun h => hs h.symm
      simp [Inquiry.tells?, hother]
  | none =>
    dsimp only
    cases find? host w.tree with
    | error e => simp [Inquiry.tells?, resultOf]
    | ok found =>
      cases found with
      | none => simp [Inquiry.tells?, resultOf]
      | some driver =>
        by_cases hs : s = seeker
        · subst hs
          simp [Inquiry.tells?, resultOf, Repair.remembering, hknown]
        · have hother : seeker ≠ s := fun h => hs h.symm
          simp [Inquiry.tells?, Repair.remembering, Dict.get?_insert, hs, hother]

/-- One question: its answer follows from what has been told, and what is remembered
    afterwards is what has been told then. -/
theorem Knows.step {past : List Inquiry} (h : Knows w past) (host : HostView) (seeker : String) :
    let q : Inquiry := ⟨seeker, w.tree, resultOf ((Driver.recall host seeker).run w)⟩
    IsAnswered host past q ∧ Knows (stateOf ((Driver.recall host seeker).run w)) (past ++ [q]) := by
  intro q
  constructor
  · unfold IsAnswered
    rw [← h q.seeker, freshAnswer_eq]
    exact resultOf_recall host w seeker
  · intro s
    rw [told?_append, ← h s, get?_drivers_recall]
    simp only [told?, List.findSome?_singleton, q]

/-- Every question among some events is answered out of the record before it. -/
theorem isAnswered_of_inquiries {events : List Event} {past before after : List Inquiry}
    {q : Inquiry} (h : Knows w past) (hrecord : inquiries host w events = before ++ q :: after) :
    IsAnswered host (past ++ before) q := by
  induction events generalizing w past before with
  | nil => simp [inquiries] at hrecord
  | cons event events ih =>
    cases event with
    | turned t => exact ih (w := { w with tree := t }) h hrecord
    | asked seeker =>
      obtain ⟨hanswer, hknows⟩ := h.step host seeker
      rw [inquiries] at hrecord
      cases before with
      | nil =>
        obtain ⟨rfl, -⟩ := List.cons.inj hrecord
        rw [List.append_nil]
        exact hanswer
      | cons p before =>
        obtain ⟨rfl, hrest⟩ := List.cons.inj hrecord
        have hrest' := ih hknows hrest
        rwa [List.append_assoc] at hrest'

/-- Every question is entered, and asking leaves the host as it is. -/
theorem map_inquiries (host : HostView) (w : World β) (events : List Event) :
    (inquiries host w events).map (fun q => (q.seeker, q.tree)) = questions w.tree events := by
  induction events generalizing w with
  | nil => rfl
  | cons event events ih =>
    cases event with
    | turned t => exact ih { w with tree := t }
    | asked seeker =>
      rw [inquiries, questions, List.map_cons, ih, tree_recall]

/-! ### Whole records -/

/-- What is to be said about every record: failures are not remembered, a driver is
    remembered for good, and it was there when it was told first. -/
structure Remembers (host : HostView) (record : List Inquiry) : Prop where
  afresh : ∀ before q after, record = before ++ q :: after →
    (∀ p ∈ before, p.seeker = q.seeker → ∀ driver, p.answer ≠ .ok (some driver)) →
    q.answer = freshAnswer host q.seeker q.tree ∧ Search host q.tree q.answer
  lasting : ∀ before p after driver, record = before ++ p :: after →
    p.answer = .ok (some driver) → ∀ q ∈ after, q.seeker = p.seeker →
    q.answer = .ok (some driver)
  vouched : ∀ q ∈ record, ∀ driver, q.answer = .ok (some driver) →
    ∃ before p after, record = before ++ p :: after ∧ p.seeker = q.seeker ∧
      p.answer = .ok (some driver) ∧
      (∀ p' ∈ before, p'.seeker = q.seeker → ∀ driver', p'.answer ≠ .ok (some driver')) ∧
      IsBacked host p.tree driver

variable {record : List Inquiry}

theorem IsAnswered.told?_append_self {past : List Inquiry} {p : Inquiry}
    (h : IsAnswered host past p) (hp : p.answer = .ok (some driver)) (later : List Inquiry) :
    told? (past ++ p :: later) p.seeker = some driver := by
  have htells : p.tells? p.seeker = some driver := Inquiry.tells?_eq_some_iff.mpr ⟨rfl, hp⟩
  have hlater : told? (p :: later) p.seeker = some driver := by
    rw [told?, List.findSome?_cons, htells]
  rw [told?_append, hlater]
  unfold IsAnswered at h
  cases htold : told? past p.seeker with
  | none => rfl
  | some driver' =>
    rw [htold, hp] at h
    cases h
    rfl

theorem remembers_of_isAnswered
    (h : ∀ before q after, record = before ++ q :: after → IsAnswered host before q) :
    Remembers host record := by
  have hfirst {before after : List Inquiry} {p : Inquiry}
      (hrecord : record = before ++ p :: after)
      (hbefore : told? before p.seeker = none) :
      p.answer = freshAnswer host p.seeker p.tree ∧ Search host p.tree p.answer := by
    have hanswer : p.answer = freshAnswer host p.seeker p.tree := by
      have hp := h before p after hrecord
      unfold IsAnswered at hp
      rwa [hbefore] at hp
    refine ⟨hanswer, ?_⟩
    rw [hanswer]
    exact search_freshAnswer host p.seeker p.tree
  constructor
  case afresh =>
    intro before q after hrecord hnone
    exact hfirst hrecord (told?_eq_none_iff.mpr hnone)
  case lasting =>
    intro before p after driver hrecord hp q hq hseeker
    obtain ⟨between, rest, rfl⟩ := List.append_of_mem hq
    have htold := (h before p _ hrecord).told?_append_self hp between
    have hanswer := h (before ++ p :: between) q rest (by simp [hrecord])
    unfold IsAnswered at hanswer
    rw [hseeker, htold] at hanswer
    exact hanswer
  case vouched =>
    intro q hq driver hanswer
    obtain ⟨before, after, hrecord⟩ := List.append_of_mem hq
    -- the question itself counts, in case that nobody told its seeker before
    have htold := (h before q after hrecord).told?_append_self hanswer []
    obtain ⟨first, p, rest, hbefore, hseeker, hp, hnone⟩ := exists_first_of_told? htold
    have hrecord' : record = first ++ p :: (rest ++ after) := by
      have hsplit : record = (before ++ [q]) ++ after := by simp [hrecord]
      rw [hsplit, hbefore]
      simp
    rw [← hseeker] at hnone
    have hsearch := (hfirst hrecord' hnone).2
    rw [hp] at hsearch
    refine ⟨first, p, _, hrecord', hseeker, hp, ?_, hsearch.isBacked⟩
    rw [← hseeker]
    exact told?_eq_none_iff.mp hnone

/-- Whatever becomes of the host, all questions of seekers that remember nothing at first are
    answered, each on the host as it is, and the record remembers the drivers that have been
    found and nothing else. -/
theorem found_driver_remembered (host : HostView) (service : β) (t : Tree) (events : List Event) :
    let record := inquiries host { service := service, tree := t } events
    record.map (fun q => (q.seeker, q.tree)) = questions t events ∧ Remembers host record := by
  intro record
  have hknows : Knows ({ service := service, tree := t } : World β) [] := fun _ => rfl
  refine ⟨map_inquiries host _ events, remembers_of_isAnswered fun before q after hrecord => ?_⟩
  exact isAnswered_of_inquiries hknows hrecord

/-- The second seeker asks when the driver is gone again; the first one knows it by then. -/
example :
    let loaded := Tree.laidOut [.dir "/usr/lib/nvidia-384" 0o755,
      .file versionFile 0o444 (Text.encode "384.111")]
    let record := inquiries {} ({ service := (), tree := .bare } : World Unit)
      [.asked "a", .turned loaded, .asked "a", .turned .bare, .asked "a", .asked "b"]
    record.map (·.answer) = [.error (.io .notFound), .ok (some ⟨"384", "/usr/lib/nvidia-384"⟩),
      .ok (some ⟨"384", "/usr/lib/nvidia-384"⟩), .error (.io .notFound)] := by
  decide +kernel

end BuildTargets.Driver
