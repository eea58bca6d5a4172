import UnitSheet.Dims

set_option autoImplicit false

namespace UnitSheet

/-- A value in the unit times `factor` is the value in canonical units. -/
structure UnitDef where
  factor : Float
  dims : Dims

namespace Dims

def ofLength : Dims := { zero with length := 1 }
def ofMass : Dims := { zero with mass := 1 }
def ofTime : Dims := { zero with time := 1 }
def ofForce : Dims := { zero with force := 1 }
def ofAngle : Dims := { zero with angle := 1 }
def ofStress : Dims := { zero with length := -2, force := 1 }

end Dims

/-- The registered units in the order in which they are suggested. -/
def unitRegistry : List (String × UnitDef) := [
  ("in", ⟨0.0254, .ofLength⟩),
  ("ft", ⟨0.3048, .ofLength⟩),
  ("yd", ⟨0.9144, .ofLength⟩),
  ("mm", ⟨0.001, .ofLength⟩),
  ("cm", ⟨0.01, .ofLength⟩),
  ("m", ⟨1, .ofLength⟩),
  ("km", ⟨1000, .ofLength⟩),
  ("mil", ⟨0.0000254, .ofLength⟩),
  ("N", ⟨1, .ofForce⟩),
  ("kN", ⟨1000, .ofForce⟩),
  ("lb", ⟨4.4482216153, .ofForce⟩),
  ("lbs", ⟨4.4482216153, .ofForce⟩),
  ("kip", ⟨4448.2216153, .ofForce⟩),
  ("kg", ⟨1, .ofMass⟩),
  ("Pa", ⟨1, .ofStress⟩),
  ("kPa", ⟨1000, .ofStress⟩),
  ("MPa", ⟨1000000, .ofStress⟩),
  ("GPa", ⟨1000000000, .ofStress⟩),
  ("psi", ⟨6894.75729, .ofStress⟩),
  ("psf", ⟨47.8802589, .ofStress⟩),
  ("ksi", ⟨6894757.29, .ofStress⟩),
  ("s", ⟨1, .ofTime⟩),
  ("sec", ⟨1, .ofTime⟩),
  ("deg", ⟨0.017453292519943295, .ofAngle⟩),
  ("rad", ⟨1, .ofAngle⟩)]

def unitNames : List String := unitRegistry.map Prod.fst

def unitDef? (name : String) : Option UnitDef := unitRegistry.lookup name

def isUnitName (name : String) : Bool := (unitDef? name).isSome

end UnitSheet
