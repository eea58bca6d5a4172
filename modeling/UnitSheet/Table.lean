import UnitSheet.Document.Recompute

set_option autoImplicit false

namespace UnitSheet

inductive CellValue
  | blank
  /-- A text, or a value of any other kind as it is written. -/
  | text (s : String)
  | flag (b : Bool)
  | integer (n : Int)
  | number (x : Float)
  /-- A text in pieces of different style. -/
  | rich (pieces : List String)
  /-- A formula that fills several cells. -/
  | array (formula : String)

namespace CellValue

def stripText (s : String) : String := String.ofList (strip s.toList)

/-- The text that a cell shows; an integer beyond the largest double has none. -/
def shown : CellValue → Except Fault String
  | blank => .ok ""
  | text s => .ok (stripText s)
  | flag b => .ok (if b then "True" else "False")
  | integer n =>
    let x := nearestOfInt n
    if x.isInf then .error .overflow else .ok (literalText x)
  | number x => .ok (if x.isNaN then "" else literalText x)
  | rich pieces => .ok (stripText (String.join pieces))
  | array formula => .ok (stripText formula)

def lineText (v : CellValue) : Except Fault String :=
  v.shown.map fun s => match s.toList with
    | '=' :: rest => String.ofList (strip rest)
    | _ => s

end CellValue

inductive EntryError
  | controlChar
  | rowBeyondEnd (row : Int)
  deriving DecidableEq, Repr

def EntryError.message : EntryError → String
  | controlChar => "A text in a cell holds no control characters"
  | rowBeyondEnd row =>
    s!"Row numbers must be between 1 and 1048576. Row number supplied was {row + 1}"

structure Table where
  cells : List (Address × CellValue)

namespace Table

def isBefore (a b : Address) : Bool :=
  if a.row = b.row then decide (a.col < b.col) else decide (a.row < b.row)

def ofRows (rows : List (List CellValue)) : Table :=
  ⟨rows.zipIdx.flatMap fun (row, i) => row.zipIdx.map fun (value, j) => (⟨i, j⟩, value)⟩

def textLimit : Nat := 32767

def rowLimit : Int := 1048576

def isRefused (c : Char) : Bool := c < ' ' && c != '\t' && c != '\n' && c != '\r'

/-- A value as a cell takes it: a text that is too long is cut. -/
def enter (a : Address) (v : CellValue) : Except EntryError (Address × CellValue) :=
  if a.row < rowLimit then
    match v with
    | .text s =>
      let cut := s.toList.take textLimit
      if cut.any isRefused then .error .controlChar else .ok (a, .text (String.ofList cut))
    | v => .ok (a, v)
  else .error (.rowBeyondEnd a.row)

def ofEntries (entries : List (Address × CellValue)) : Except EntryError Table :=
  (entries.mapM fun e => enter e.1 e.2).map fun entered =>
    let latest := entered.foldl (fun cells e => e :: cells.filter fun c => c.1 != e.1) []
    ⟨arrange (fun a b => isBefore a.1 b.1) latest⟩

def read (t : Table) (a : Address) : Except Fault String :=
  match t.cells.lookup a with
  | some value => value.shown
  | none => .ok ""

def sheet (t : Table) : Sheet :=
  Sheet.ofCells (t.cells.map fun c => (c.1, match c.2.shown with
    | .ok s => .ok s
    | .error _ => .error "int too large to convert to float"))

def line? (a : Address) (v : CellValue) : Except Fault (Option Line) :=
  match v.lineText with
  | .error fault => .error fault
  | .ok text =>
    if text = "" then .ok none
    else match a.label with
      | .error cause => .error (.column cause)
      | .ok id => .ok (some { id, text, place := { address := some a } })

def linesOf : List (Address × CellValue) → Except Fault (List Line)
  | [] => .ok []
  | (a, v) :: rest =>
    match line? a v with
    | .error fault => .error fault
    | .ok found =>
      match linesOf rest with
      | .error fault => .error fault
      | .ok lines => .ok (found.toList ++ lines)

def document (t : Table) : Except Fault Document :=
  (linesOf t.cells).map fun lines => ⟨lines, .grid, .empty⟩

def recompute (t : Table) (o : Options) : Except Fault (Document × Option Fault) :=
  t.document.map fun d => d.recompute o t.sheet .standard

end Table

structure ReportRow where
  id : String
  text : String
  kind : LineKind
  magnitude : Option Float
  unit : Option String
  shown : Option String
  error : Option String

def Document.report (d : Document) : List ReportRow :=
  d.ordered.map fun l =>
    { id := l.id
      text := l.text
      kind := l.kind
      magnitude := l.outcome.result?.map Quantity.magnitude
      unit := l.outcome.result?.bind Quantity.unit
      shown := l.outcome.shown?
      error := l.outcome.error?.map CalcError.message }

end UnitSheet
