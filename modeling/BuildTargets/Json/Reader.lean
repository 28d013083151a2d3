/-
  BuildTargets/Json/Reader.lean
  =============================
  **Reading JSON, one character at a time.**

  A reader is a stack of the arrays and objects that are open, and a phase: what
  may come next, or the literal that is being read.  One character takes it to
  the next state or is refused (`Reader.step`); so a text is read by a fold, at
  any depth of nesting.
-/
import BuildTargets.Json.Literal

namespace BuildTargets.Json

/-- An open array or object with what it holds so far, last first. -/
inductive Frame where
  | array (items : List Json)
  | object (members : List (Option String × Json))
  /-- An object with the name of the member whose value comes next. -/
  | member (members : List (Option String × Json)) (name : Option String)
deriving Inhabited

/-- What a reader is doing. -/
inductive Phase where
  /-- A value has to come. -/
  | value
  /-- A value or the end of the array has to come. -/
  | firstItem
  /-- A member or the end of the object has to come. -/
  | firstMember
  /-- A member has to come. -/
  | nextMember
  /-- The colon after the name of a member has to come. -/
  | colon
  /-- A value has been read. -/
  | done (j : Json)
  /-- A string literal is being read, `asName` as the name of a member. -/
  | quoted (asName : Bool) (q : Quoted)
  /-- A number is being read; its characters so far, last first. -/
  | numeral (n : Numeral) (literal : List Char)
  /-- The rest of a word that stands for a value. -/
  | word (rest : List Char) (j : Json)
deriving Inhabited

/-- The state of reading a text. -/
structure Reader where
  stack : List Frame := []
  phase : Phase := .value
deriving Inhabited

namespace Reader

def isSpace (c : Char) : Bool := c = ' ' || c = '\n' || c = '\r' || c = '\t'

def beginValue (stack : List Frame) (c : Char) : Option Reader :=
  match c with
  | '"' => some ⟨stack, .quoted false {}⟩
  | '[' => some ⟨.array [] :: stack, .firstItem⟩
  | '\x7b' => some ⟨.object [] :: stack, .firstMember⟩
  | 'n' => some ⟨stack, .word "ull".toList .null⟩
  | 't' => some ⟨stack, .word "rue".toList (.bool true)⟩
  | 'f' => some ⟨stack, .word "alse".toList (.bool false)⟩
  | c => (Numeral.start? c).map fun n => ⟨stack, .numeral n [c]⟩

/-- A character after a value, other than white space. -/
def afterValue (stack : List Frame) (j : Json) (c : Char) : Option Reader :=
  match c, stack with
  | ',', .array items :: stack => some ⟨.array (j :: items) :: stack, .value⟩
  | ']', .array items :: stack => some ⟨stack, .done (.array (j :: items).reverse)⟩
  | ',', .member members name :: stack =>
    some ⟨.object ((name, j) :: members) :: stack, .nextMember⟩
  | '\x7d', .member members name :: stack =>
    some ⟨stack, .done (.object ((name, j) :: members).reverse)⟩
  | _, _ => none

/-- What one character does to a reader; nothing if it cannot stand there. -/
def step (r : Reader) (c : Char) : Option Reader :=
  match r.phase with
  | .quoted asName q =>
    match q.step c with
    | none => none
    | some (.inl q) => some ⟨r.stack, .quoted asName q⟩
    | some (.inr text) =>
      if asName then
        match r.stack with
        | .object members :: stack => some ⟨.member members text :: stack, .colon⟩
        | _ => none
      else some ⟨r.stack, .done (.string text)⟩
  | .word rest j =>
    match rest with
    | [] => none
    | [d] => if c = d then some ⟨r.stack, .done j⟩ else none
    | d :: rest => if c = d then some ⟨r.stack, .word rest j⟩ else none
  | .numeral n literal =>
    match n.step? c with
    | some n => some ⟨r.stack, .numeral n (c :: literal)⟩
    | none =>
      if n.isComplete then
        if isSpace c then some ⟨r.stack, .done (.number literal.reverse)⟩
        else afterValue r.stack (.number literal.reverse) c
      else none
  | .value => if isSpace c then some r else beginValue r.stack c
  | .firstItem =>
    if isSpace c then some r
    else if c = ']' then
      match r.stack with
      | .array items :: stack => some ⟨stack, .done (.array items.reverse)⟩
      | _ => none
    else beginValue r.stack c
  | .firstMember =>
    if isSpace c then some r
    else if c = '\x7d' then
      match r.stack with
      | .object members :: stack => some ⟨stack, .done (.object members.reverse)⟩
      | _ => none
    else if c = '"' then some ⟨r.stack, .quoted true {}⟩ else none
  | .nextMember =>
    if isSpace c then some r
    else if c = '"' then some ⟨r.stack, .quoted true {}⟩ else none
  | .colon =>
    if isSpace c then some r
    else if c = ':' then some ⟨r.stack, .value⟩ else none
  | .done j => if isSpace c then some r else afterValue r.stack j c

def run (r : Reader) : List Char → Option Reader
  | [] => some r
  | c :: cs =>
    match r.step c with
    | some r => run r cs
    | none => none

/-- The value that has been read when the text ends. -/
def finish (r : Reader) : Option Json :=
  match r.stack, r.phase with
  | [], .done j => some j
  | [], .numeral n literal => if n.isComplete then some (.number literal.reverse) else none
  | _, _ => none

/-- Reading two texts one after the other is reading both. -/
theorem run_append (r : Reader) (cs ds : List Char) :
    r.run (cs ++ ds) = (r.run cs).bind (·.run ds) := by
  induction cs generalizing r with
  | nil => rfl
  | cons c cs ih =>
    simp only [List.cons_append, run]
    cases r.step c with
    | none => rfl
    | some r => exact ih r

end Reader

/-- The value that a text spells in JSON, with white space around it. -/
def read? (text : String) : Option Json := (Reader.run {} text.toList).bind Reader.finish

end BuildTargets.Json
