import UnitSheet.Address
import UnitSheet.Document.Order
import UnitSheet.Document.Runs.Lemmas
import UnitSheet.Number.Binary

set_option autoImplicit false

namespace UnitSheet

inductive Layout
  /-- Lines in the order given. -/
  | pad
  /-- Boxes, read from top to bottom and then from left to right. -/
  | canvas
  /-- Cells, read row by row; lines without an address come last. -/
  | grid
  deriving DecidableEq, Repr

/-- The place of a line: of a box on a canvas, or of a cell in a grid. -/
structure Place where
  x : Float := 0
  y : Float := 0
  address : Option Address := none

namespace Place

/-- Whether a coordinate comes before another one; what is no number comes neither before nor after
anything. -/
def isLess (x y : Float) : Bool :=
  match Binary.rank? x, Binary.rank? y with
  | some a, some b => decide (a < b)
  | _, _ => false

def isLevel (x y : Float) : Bool :=
  match Binary.rank? x, Binary.rank? y with
  | some a, some b => decide (a = b)
  | _, _ => false

def isAbove (p q : Place) : Bool := if isLevel p.y q.y then isLess p.x q.x else isLess p.y q.y

def isDefined (p : Place) : Bool := (Binary.rank? p.x).isSome && (Binary.rank? p.y).isSome

def isBeforeCell (p q : Place) : Bool :=
  match p.address, q.address with
  | some a, some b => if a.row = b.row then decide (a.col < b.col) else decide (a.row < b.row)
  | some _, none => true
  | none, _ => false

end Place

namespace Layout

/-- The places in reading order, each with its index. Boxes without a defined place stand where
merging leaves them. -/
def arrange (layout : Layout) (places : List Place) : List (Place × Nat) :=
  match layout with
  | .pad => places.zipIdx
  | .canvas =>
    if places.all Place.isDefined then
      UnitSheet.arrange (fun a b => a.1.isAbove b.1) places.zipIdx
    else Runs.mergeRuns (fun a b => a.1.isAbove b.1) places.zipIdx
  | .grid => UnitSheet.arrange (fun a b => a.1.isBeforeCell b.1) places.zipIdx

def order (layout : Layout) (places : List Place) : List Nat :=
  (layout.arrange places).map Prod.snd

theorem arrange_perm (layout : Layout) (places : List Place) :
    (layout.arrange places).Perm places.zipIdx := by
  unfold arrange
  split
  · exact .refl _
  · split
    · exact UnitSheet.arrange_perm _ _
    · exact Runs.mergeRuns_perm _ _
  · exact UnitSheet.arrange_perm _ _

theorem order_perm (layout : Layout) (places : List Place) :
    (layout.order places).Perm (List.range places.length) := by
  have h := (layout.arrange_perm places).map Prod.snd
  rwa [List.zipIdx_map_snd, ← List.range_eq_range'] at h

end Layout

end UnitSheet
