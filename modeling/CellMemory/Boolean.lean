import CellMemory.Event

/-! # Booleans as patterns

A boolean fills its word: all bits set for true, none for false. Other devices may leave any
pattern that is not zero for true, so only the zero pattern is read as false, and every pattern
that is not one of the two canonical ones is reported.
-/

namespace CellMemory.Boolean
set_option autoImplicit false

def truePattern : UInt32 := 0xFFFFFFFF

def falsePattern : UInt32 := 0

def encode (b : Bool) : UInt32 := if b then truePattern else falsePattern

def Canonical (pattern : UInt32) : Prop := pattern = falsePattern ∨ pattern = truePattern

instance (pattern : UInt32) : Decidable (Canonical pattern) :=
  inferInstanceAs (Decidable (_ ∨ _))

/-- The boolean a pattern stands for; a pattern that is not canonical is reported. -/
def decode (pattern : UInt32) : Traced Bool where
  value := pattern != falsePattern
  events := if Canonical pattern then [] else [.nonCanonicalBoolean pattern]

end CellMemory.Boolean
