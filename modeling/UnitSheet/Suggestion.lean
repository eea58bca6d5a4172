set_option autoImplicit false

/-!
The closest of several names. Two names are the closer the longer their longest common subsequence;
a name is suggested only if it is similar enough.
-/

namespace UnitSheet

def subsequenceRow (c : Char) (corner left : Nat) : List Char → List Nat → List Nat
  | d :: ds, above :: row =>
    let best := if c = d then corner + 1 else max left above
    best :: subsequenceRow c above best ds row
  | _, _ => []

def commonLength (a b : List Char) : Nat :=
  let row := a.foldl (fun row c => subsequenceRow c 0 0 b row) (List.replicate b.length 0)
  row.getLast?.getD 0

/-- The likeness of two texts, from 0 for no common character to 100 for equal texts, or 0 if it
does not reach `cutoff`. It is the ratio that a string matching package, which is no part of the
program, documents: the share of the characters that are neither inserted nor deleted. -/
def similarity (cutoff : Float) (a b : List Char) : Float :=
  let total := a.length + b.length
  let distance := total - 2 * commonLength a b
  let share := if total = 0 then 1 else 1 - Float.ofNat distance / Float.ofNat total
  if cutoff / 100 ≤ share then share * 100 else 0

def bestMatch (cutoff : Float) (name : List Char) :
    Option (Float × String) → List String → Option (Float × String)
  | best, [] => best
  | best, candidate :: rest =>
    let score := similarity cutoff name candidate.toList
    let better := match best with
      | some (top, _) => decide (top < score)
      | none => decide (cutoff ≤ score)
    bestMatch cutoff name (if better then some (score, candidate) else best) rest

def closest? (cutoff : Float) (name : String) (candidates : List String) : Option String :=
  (bestMatch cutoff name.toList none (candidates.filter (· != name))).map Prod.snd

inductive ShareError
  | outOfRange
  deriving DecidableEq, Repr

/-- The candidate that is closest to `name`, if it is at least the share `least` alike. The share
counts in single precision, and it is looked at only if there is a choice. -/
def suggest (name : String) (candidates : List String) (least : Float) :
    Except ShareError (Option String) :=
  let cutoff := (least * 100).toFloat32.toFloat
  if candidates.all (· == name) then .ok none
  else if cutoff < 0 || 100 < cutoff then .error .outOfRange
  else .ok (closest? cutoff name candidates)

def standardShare : Float := 0.6

def hint? (name : String) (candidates : List String) : Option String :=
  closest? 60 name candidates

def hintText : Option String → String
  | some hint => s!" (did you mean '{hint}'?)"
  | none => ""

end UnitSheet
