import UnitSheet.Display
import UnitSheet.Document.Place
import UnitSheet.Evaluation
import UnitSheet.Line.Kind

set_option autoImplicit false

namespace UnitSheet

inductive Outcome
  | blank
  | value (result : Quantity) (shown : String)
  | failed (error : CalcError)

namespace Outcome

def result? : Outcome → Option Quantity
  | value result _ => some result
  | _ => none

def shown? : Outcome → Option String
  | value _ shown => some shown
  | _ => none

def error? : Outcome → Option CalcError
  | failed error => some error
  | _ => none

end Outcome

structure Line where
  id : String
  text : String
  place : Place := {}
  kind : LineKind := .text
  outcome : Outcome := .blank

structure Document where
  lines : List Line
  layout : Layout
  store : Store

structure NoLine where
  id : String
  deriving DecidableEq, Repr

def NoLine.message (e : NoLine) : String := s!"No line with id {e.id}"

namespace Document

/-- The lines in reading order, each with its index in the list of lines. -/
def numbered (d : Document) : List (Line × Nat) :=
  (d.layout.order (d.lines.map Line.place)).filterMap fun i => d.lines[i]?.map (·, i)

theorem filterMap_range_getElem? (lines : List Line) : ∀ start : Nat,
    ((List.range lines.length).filterMap fun i => lines[i]?.map (·, i + start)) =
      lines.zipIdx start := by
  induction lines with
  | nil => intro start; rfl
  | cons l lines ih =>
    intro start
    have h : ∀ i, i + 1 + start = i + (start + 1) := by omega
    rw [List.length_cons, List.range_succ_eq_map, List.filterMap_cons, List.filterMap_map,
      List.zipIdx_cons, ← ih (start + 1)]
    simp only [Function.comp_def, Nat.succ_eq_add_one, List.getElem?_cons_zero,
      List.getElem?_cons_succ, Option.map_some, Nat.zero_add, h]

theorem numbered_perm (d : Document) : d.numbered.Perm d.lines.zipIdx := by
  have h := d.layout.order_perm (d.lines.map Line.place)
  rw [List.length_map] at h
  rw [← filterMap_range_getElem? d.lines 0]
  exact h.filterMap _

def ordered (d : Document) : List Line := d.numbered.map Prod.fst

def line (d : Document) (id : String) : Except NoLine Line :=
  match d.lines.find? fun l => l.id == id with
  | some l => .ok l
  | none => .error ⟨id⟩

def addLine (d : Document) (l : Line) : Document := { d with lines := d.lines ++ [l] }

def changeFirst (p : Line → Bool) (f : Line → Line) : List Line → List Line
  | [] => []
  | l :: rest => if p l then f l :: rest else l :: changeFirst p f rest

def changeLine (d : Document) (id : String) (f : Line → Line) : Except NoLine Document :=
  match d.line id with
  | .error e => .error e
  | .ok _ => .ok { d with lines := changeFirst (fun l => l.id == id) f d.lines }

def removeLine (d : Document) (id : String) : Except NoLine (Line × Document) :=
  match d.line id with
  | .error e => .error e
  | .ok l =>
    .ok (l, { d with
      lines := d.lines.eraseP fun l => l.id == id
      store := d.store.clearOwner id })

def dropLines (d : Document) (id : String) : Document :=
  { d with lines := d.lines.filter fun l => l.id != id }

end Document

end UnitSheet
