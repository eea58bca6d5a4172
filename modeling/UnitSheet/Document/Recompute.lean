import UnitSheet.Document
import UnitSheet.Evaluation.Restricted
import UnitSheet.Line.Repeats

set_option autoImplicit false

/-!
Recomputing a document in one pass in reading order. Text lines are left alone; each other line is
evaluated with the names of the lines before it, and its definition is entered under its id. An
error stays on its line; a fault ends the pass.
-/

namespace UnitSheet

structure Options where
  /-- Whether the units of a sum of written quantities have to be written alike. -/
  strict : Bool := true
  preferences : Preferences := {}

def preparedText (text : String) : String := foldRepeats (normalize (trimEquals text))

inductive Tier
  | restricted
  | full
  deriving DecidableEq, Repr

/-- The statement on a line, and the grammar that reads it: the full one only reads what the
restricted one cannot. -/
def readLine (text : String) : Except CalcError (Statement × Tier) :=
  let lexed := lex (preparedText text)
  match lexed.strays with
  | stray :: _ => .error (.stray stray)
  | [] =>
    match Grammar.Restricted.parse lexed.tokens with
    | .parsed statement => .ok (statement, .restricted)
    | _ =>
      match Grammar.parse lexed.tokens with
      | .error e => .error (.parse e)
      | .ok statement => .ok (statement, .full)

def Tier.value (tier : Tier) (strict : Bool) (store : Store)
    (cell : String → Except Failure Quantity) (e : Expr) : Except Failure Quantity :=
  match tier with
  | restricted => e.evalRestricted strict
  | full => e.evalWith store cell

def evaluateLineWith (strict : Bool) (store : Store) (cell : String → Except Failure Quantity)
    (text : String) : Except Failure (Statement × Quantity) :=
  match readLine text with
  | .error e => .error (.mistake e)
  | .ok (statement, tier) =>
    (tier.value strict store cell statement.expr).map (statement, ·)

def evaluateLine (strict : Bool) (s : Scope) (text : String) :
    Except Failure (Statement × Quantity) :=
  evaluateLineWith strict s.store (s.evalCell []) text

structure Computed where
  target : Option String
  value : Quantity
  shown : String

def computeLine (o : Options) (s : Scope) (text : String) : Except Failure Computed :=
  match evaluateLine o.strict s text with
  | .error failure => .error failure
  | .ok (statement, value) =>
    (displayQuantity value none o.preferences).map fun shown => ⟨statement.target, value, shown⟩

structure Turn where
  line : Line
  store : Store
  fault : Option Fault

def Line.recompute (o : Options) (s : Scope) (l : Line) : Turn :=
  let kind := lineKind (normalize l.text)
  let l := { l with kind, outcome := .blank }
  if kind = .text then ⟨l, s.store, none⟩
  else match computeLine o s l.text with
    | .error (.fault fault) => ⟨l, s.store, some fault⟩
    | .error (.mistake error) => ⟨{ l with outcome := .failed error }, s.store, none⟩
    | .ok c =>
      let store := match c.target with
        | some name => s.store.define name c.value l.id
        | none => s.store
      ⟨{ l with outcome := .value c.value c.shown }, store, none⟩

structure Pass (Place : Type) where
  lines : List (Line × Place)
  store : Store
  fault : Option Fault

/-- A pass that starts with a turn and goes on with the names that the turn leaves. Behind a fault
the lines stay as they are. -/
def Turn.andThen {Place : Type} (turn : Turn) (place : Place) (behind : List (Line × Place))
    (goOn : Store → Pass Place) : Pass Place :=
  match turn.fault with
  | some fault => ⟨(turn.line, place) :: behind, turn.store, some fault⟩
  | none =>
    let pass := goOn turn.store
    ⟨(turn.line, place) :: pass.lines, pass.store, pass.fault⟩

def runLines {Place : Type} (o : Options) (sheet : Sheet) (addresses : AddressReader)
    (store : Store) : List (Line × Place) → Pass Place
  | [] => ⟨[], store, none⟩
  | (l, place) :: rest =>
    (l.recompute o ⟨store, sheet, addresses⟩).andThen place rest fun store =>
      runLines o sheet addresses store rest

def restoreOrder (lines : List (Line × Nat)) : List Line :=
  (lines.mergeSort fun a b => decide (a.2 ≤ b.2)).map Prod.fst

def Document.runFrom (d : Document) (o : Options) (sheet : Sheet) (addresses : AddressReader)
    (store : Store) : List Line × Store × Option Fault :=
  let pass := runLines o sheet addresses store d.numbered
  (restoreOrder pass.lines, pass.store, pass.fault)

def Document.recompute (d : Document) (o : Options) (sheet : Sheet) (addresses : AddressReader) :
    Document × Option Fault :=
  let (lines, store, fault) := d.runFrom o sheet addresses .empty
  ({ d with lines, store }, fault)

/-- Recomputes a document with the names of another store. Of these, the ones that lines of the
document own are built up anew. -/
def Document.recomputeWith (d : Document) (o : Options) (sheet : Sheet) (addresses : AddressReader)
    (store : Store) : Document × Store × Option Fault :=
  let cleared := d.lines.foldl (fun s l => s.clearOwner l.id) store
  let (lines, store, fault) := d.runFrom o sheet addresses cleared
  ({ d with lines }, store, fault)

end UnitSheet
