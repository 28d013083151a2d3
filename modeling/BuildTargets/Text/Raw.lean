/-
  BuildTargets/Text/Raw.lean
  ==========================
  **Texts as the system has them.**

  For the system a name or a path is a sequence of bytes, and nothing makes these
  bytes UTF-8.  A text of the program reaches the system as its UTF-8 bytes, and
  comes back from them (`shown_ofText`); a name that the system gives is turned
  into a text with U+FFFD for what is ill-formed, so the text need not lead back
  to the name, and two names can have one text.
-/
import BuildTargets.Text.Split
import BuildTargets.Text.Utf8

namespace BuildTargets

/-- A name or a path as the system has it. -/
structure RawText where
  bytes : List UInt8
deriving DecidableEq, Repr, Inhabited

namespace RawText

/-- What the system gets for a text.  Its bytes are only looked at by
    `bytes_ofText`; unfolding them on the way would be of no use. -/
@[irreducible] def ofText (s : String) : RawText := ⟨Text.encode s⟩

instance : Coe String RawText := ⟨ofText⟩

theorem bytes_ofText (s : String) : (ofText s).bytes = Text.encode s := by
  rw [ofText]

/-- The text that a name or a path is turned into. -/
def shown (r : RawText) : String := Text.decodeLossy r.bytes

def slash : UInt8 := 0x2F

def byteSize (r : RawText) : Nat := r.bytes.length

/-- The fields between the slashes, empty ones included. -/
def fields (r : RawText) : List RawText := (Text.split slash r.bytes).map mk

/-- The path of an entry of a directory. -/
def child (dir entry : RawText) : RawText := ⟨dir.bytes ++ slash :: entry.bytes⟩

/-! ### Order -/

/-- Names are in the order of their bytes. -/
instance : LT RawText := ⟨fun r s => r.bytes < s.bytes⟩

instance : LE RawText := ⟨fun r s => r.bytes ≤ s.bytes⟩

instance : DecidableLT RawText := fun r s => inferInstanceAs (Decidable (r.bytes < s.bytes))

instance : Std.IsLinearOrder RawText where
  le_refl r := List.le_refl r.bytes
  le_trans _ _ _ := List.le_trans
  le_antisymm _ _ h h' := congrArg mk (Std.le_antisymm h h')
  le_total r s := Std.le_total (a := r.bytes) (b := s.bytes)

instance : Std.LawfulOrderLT RawText where
  lt_iff r s := Std.LawfulOrderLT.lt_iff r.bytes s.bytes

end RawText

end BuildTargets
