import Mathlib.Data.List.InsertIdx
import UnitSheet.Proofs.Document.Pass

set_option autoImplicit false

namespace UnitSheet

namespace Document

/-- What can happen to a document. What names a line that does not exist changes nothing. -/
inductive Event
  | add (l : Line)
  /-- Writes the text of a line anew, and places the line anew. -/
  | rewrite (id : String) (text : String → String) (place : Place → Place)
  /-- Takes the line at one index of the list and puts it in at another one. -/
  | shift (source target : Nat)
  | remove (id : String)
  | drop (id : String)
  | layOut (layout : Layout)
  | define (name : String) (value : Quantity) (owner : String)
  | recompute (o : Options) (sheet : Sheet) (addresses : AddressReader)
  | recomputeWith (o : Options) (sheet : Sheet) (addresses : AddressReader) (store : Store)

def shiftLine (source target : Nat) (lines : List Line) : List Line :=
  match lines[source]? with
  | none => lines
  | some l => (lines.eraseIdx source).take target ++ l :: (lines.eraseIdx source).drop target

def Event.apply (e : Event) (d : Document) : Document :=
  match e with
  | add l => d.addLine l
  | rewrite id text place =>
    match d.changeLine id fun l => { l with text := text l.text, place := place l.place } with
    | .ok changed => changed
    | .error _ => d
  | shift source target => { d with lines := shiftLine source target d.lines }
  | remove id =>
    match d.removeLine id with
    | .ok (_, rest) => rest
    | .error _ => d
  | drop id => d.dropLines id
  | layOut layout => { d with layout }
  | define name value owner => { d with store := d.store.define name value owner }
  | recompute o sheet addresses => (d.recompute o sheet addresses).1
  | recomputeWith o sheet addresses store => (d.recomputeWith o sheet addresses store).1

def Event.isWriting : Event → Bool
  | define _ _ _ | recompute _ _ _ | recomputeWith _ _ _ _ => false
  | _ => true

def after (d : Document) (events : List Event) : Document :=
  events.foldl (fun d e => e.apply d) d

theorem fresh_fresh (d : Document) : d.fresh.fresh = d.fresh := by
  simp [fresh, Line.fresh]

theorem changeFirst_fresh {id : String} {f : Line → Line} (hf : ∀ l, (f l.fresh).fresh = (f l).fresh)
    (lines : List Line) :
    (changeFirst (fun l => l.id == id) f (lines.map Line.fresh)).map Line.fresh =
      (changeFirst (fun l => l.id == id) f lines).map Line.fresh := by
  have hfresh : ∀ l : Line, l.fresh.fresh = l.fresh := fun _ => rfl
  induction lines with
  | nil => rfl
  | cons l lines ih =>
    have hid : l.fresh.id = l.id := rfl
    simp only [List.map_cons, changeFirst, hid]
    split
    · simp only [List.map_cons, List.map_map, Function.comp_def, hf, hfresh]
    · rw [List.map_cons, List.map_cons, ih, hfresh]

theorem shiftLine_map (source target : Nat) (f : Line → Line) (lines : List Line) :
    shiftLine source target (lines.map f) = (shiftLine source target lines).map f := by
  unfold shiftLine
  rw [List.getElem?_map]
  cases lines[source]? with
  | none => rfl
  | some l => simp [List.eraseIdx_map]

theorem line_fresh (d : Document) (id : String) : d.fresh.line id = (d.line id).map Line.fresh := by
  have hfind : d.fresh.lines.find? (fun l => l.id == id) =
      (d.lines.find? fun l => l.id == id).map Line.fresh := by
    rw [fresh, List.find?_map]
    rfl
  rw [line, line, hfind]
  cases d.lines.find? fun l => l.id == id <;> rfl

/-- What an event writes does not depend on what passes have left, and what writes nothing keeps
what is written. -/
theorem fresh_apply (e : Event) (d : Document) :
    (e.apply d).fresh = if e.isWriting then (e.apply d.fresh).fresh else d.fresh := by
  cases e with
  | add l => simp [Event.apply, Event.isWriting, addLine, fresh, Line.fresh]
  | rewrite id text place =>
    simp only [Event.apply, Event.isWriting, changeLine, line_fresh, if_true]
    cases d.line id with
    | error e => exact (fresh_fresh d).symm
    | ok l =>
      simp only [Except.map, fresh]
      rw [changeFirst_fresh fun _ => rfl]
  | shift source target =>
    simp only [Event.apply, Event.isWriting, fresh, shiftLine_map, if_true, List.map_map]
    rfl
  | remove id =>
    simp only [Event.apply, Event.isWriting, removeLine, line_fresh, if_true]
    cases d.line id with
    | error e => exact (fresh_fresh d).symm
    | ok l =>
      simp only [Except.map, fresh, List.eraseP_map, List.map_map]
      rfl
  | drop id =>
    simp only [Event.apply, Event.isWriting, dropLines, fresh, List.filter_map, List.map_map, if_true]
    rfl
  | layOut layout => exact (congrArg (fun d : Document => { d with layout }) (fresh_fresh d)).symm
  | define name value owner => rfl
  | recompute o sheet addresses => exact fresh_recompute_document d o sheet addresses
  | recomputeWith o sheet addresses store =>
    simp only [Event.apply, Event.isWriting, recomputeWith, runFrom, fresh, map_fresh_recomputed,
      Bool.false_eq_true, if_false]

theorem fresh_after (d : Document) (events : List Event) :
    (d.after events).fresh = (d.fresh.after (events.filter Event.isWriting)).fresh := by
  suffices h : ∀ d' : Document, d'.fresh = d.fresh →
      (d.after events).fresh = (d'.after (events.filter Event.isWriting)).fresh from
    h _ (fresh_fresh d)
  induction events generalizing d with
  | nil => exact fun d' h => h.symm
  | cons e events ih =>
    intro d' h
    have he := fresh_apply e d
    by_cases hwrites : e.isWriting
    · rw [List.filter_cons_of_pos hwrites]
      refine ih (e.apply d) (e.apply d') ?_
      rw [he, fresh_apply e d', h, if_pos hwrites]
    · rw [List.filter_cons_of_neg hwrites]
      rw [if_neg hwrites] at he
      exact ih (e.apply d) d' (h.trans he.symm)

section

variable {o : Options} {sheet : Sheet} {addresses : AddressReader}

theorem fault_recompute_fresh (d : Document) :
    (d.fresh.recompute o sheet addresses).2 = (d.recompute o sheet addresses).2 := by
  rw [recompute_eq, recompute_eq, numbered_fresh]
  exact (runLines_fresh _ _).1

theorem recompute_fresh_of_none {d : Document} (h : (d.recompute o sheet addresses).2 = none) :
    d.fresh.recompute o sheet addresses = d.recompute o sheet addresses := by
  rw [recompute_eq, recompute_eq, numbered_fresh, (runLines_fresh _ _).2 h]
  rfl

/-- A recomputation that comes to an end, and what comes of the lines as they are written, are the
same: kinds, outcomes, names and their order. A second one changes nothing. -/
theorem recompute_after (d : Document) (events : List Event) (o : Options) (sheet : Sheet)
    (addresses : AddressReader) :
    (d.after events).fresh = (d.fresh.after (events.filter Event.isWriting)).fresh ∧
    ((d.after events).recompute o sheet addresses).2 =
      ((d.after events).fresh.recompute o sheet addresses).2 ∧
    (((d.after events).recompute o sheet addresses).2 = none →
      (d.after events).recompute o sheet addresses =
        (d.after events).fresh.recompute o sheet addresses ∧
      ((d.after events).recompute o sheet addresses).1.recompute o sheet addresses =
        (d.after events).recompute o sheet addresses) := by
  refine ⟨fresh_after d events, (fault_recompute_fresh _).symm, fun h => ?_⟩
  generalize d.after events = e at h ⊢
  have hfresh := recompute_fresh_of_none h
  have hwritten := fresh_recompute_document e o sheet addresses
  refine ⟨hfresh.symm, ?_⟩
  have hagain : ((e.recompute o sheet addresses).1.recompute o sheet addresses).2 = none := by
    rw [← fault_recompute_fresh, hwritten, fault_recompute_fresh, h]
  rw [← recompute_fresh_of_none hagain, hwritten, hfresh]

def mendedHistory : List Event :=
  [.add { id := "span", text := "a = 2 ft" }, .add { id := "rise", text := "1 ^ 1e19" },
    .recompute {} .empty .none, .define "a" (.scalar 7) "note", .shift 1 0,
    .rewrite "rise" (fun _ => "b = 3 ft + 1 ft") id]

theorem recompute_after_mendedHistory :
    ((after ⟨[], .pad, .empty⟩ mendedHistory).recompute {} .empty .none).2 = none ∧
    (after ⟨[], .pad, .empty⟩ mendedHistory).recompute {} .empty .none =
      (after ⟨[], .pad, .empty⟩ mendedHistory).fresh.recompute {} .empty .none := by
  have h := recompute_after ⟨[], .pad, .empty⟩ mendedHistory {} .empty .none
  have hreturns : ((after ⟨[], .pad, .empty⟩ mendedHistory).recompute {} .empty .none).2 = none := by
    rw [h.2.1, h.1]
    decide +kernel
  exact ⟨hreturns, (h.2.2 hreturns).1⟩

end

end Document

end UnitSheet
