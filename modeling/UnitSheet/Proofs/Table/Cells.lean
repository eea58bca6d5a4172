import Mathlib.Data.List.Nodup
import UnitSheet.Proofs.Document.Pass
import UnitSheet.Proofs.Store
import UnitSheet.Table

set_option autoImplicit false

namespace UnitSheet

namespace Table

/-- How tables come about: from rows of values, or by entering values into cells. -/
inductive IsMade : Table → Prop
  | rows (rows : List (List CellValue)) : IsMade (.ofRows rows)
  | entries {entries : List (Address × CellValue)} {t : Table} :
      (∀ e ∈ entries, 0 ≤ e.1.row) → ofEntries entries = .ok t → IsMade t

structure IsProper (cells : List (Address × CellValue)) : Prop where
  nodup : (cells.map Prod.fst).Nodup
  row : ∀ c ∈ cells, 0 ≤ c.1.row

section
variable {cells : List (Address × CellValue)} {entries : List (Address × CellValue)}

theorem IsProper.of_perm {cells' : List (Address × CellValue)} (h : IsProper cells)
    (hperm : cells'.Perm cells) : IsProper cells' :=
  ⟨(hperm.map Prod.fst).nodup_iff.2 h.nodup, fun c hc => h.row c (hperm.subset hc)⟩

theorem isProper_ofRows (rows : List (List CellValue)) : IsProper (ofRows rows).cells := by
  constructor
  · rw [ofRows, List.map_flatMap, List.nodup_flatMap]
    refine ⟨fun x _ => ?_, (pairwise_lt_zipIdx rows).imp fun hlt => ?_⟩
    · rw [List.map_map]
      refine List.pairwise_map.2 ((pairwise_lt_zipIdx x.1).imp fun hlt hsame => ?_)
      exact Nat.ne_of_lt hlt (Int.ofNat.inj (congrArg Address.col hsame))
    · -- Cells of two rows have different row numbers.
      intro a ha hb
      simp only [List.mem_map] at ha hb
      obtain ⟨_, ⟨_, -, rfl⟩, rfl⟩ := ha
      obtain ⟨_, ⟨_, -, rfl⟩, hrow⟩ := hb
      exact Nat.ne_of_gt hlt (Int.ofNat.inj (congrArg Address.row hrow))
  · intro c hc
    obtain ⟨x, -, hc⟩ := List.mem_flatMap.1 hc
    obtain ⟨y, -, rfl⟩ := List.mem_map.1 hc
    exact Int.natCast_nonneg _

theorem isProper_enter (h : IsProper cells) {e : Address × CellValue} (hrow : 0 ≤ e.1.row) :
    IsProper (e :: cells.filter fun c => c.1 != e.1) := by
  constructor
  · rw [List.map_cons, List.nodup_cons]
    refine ⟨fun hmem => ?_, h.nodup.sublist (List.filter_sublist.map Prod.fst)⟩
    obtain ⟨c, hc, heq⟩ := List.mem_map.1 hmem
    simpa [heq] using (List.mem_filter.1 hc).2
  · intro c hc
    rcases List.mem_cons.1 hc with rfl | hc
    · exact hrow
    · exact h.row c (List.mem_of_mem_filter hc)

theorem isProper_foldl_enter (hentries : ∀ e ∈ entries, 0 ≤ e.1.row) (h : IsProper cells) :
    IsProper (entries.foldl (fun cells e => e :: cells.filter fun c => c.1 != e.1) cells) := by
  induction entries generalizing cells with
  | nil => exact h
  | cons e entries ih =>
    rw [List.foldl_cons]
    exact ih (fun e' he' => hentries e' (List.mem_cons_of_mem e he'))
      (isProper_enter h (hentries e List.mem_cons_self))

theorem address_of_enter {a : Address} {v : CellValue} {e : Address × CellValue}
    (h : enter a v = .ok e) : e.1 = a := by
  unfold enter at h
  split at h
  · split at h
    · dsimp only at h
      split at h
      · cases h
      · obtain rfl := Except.ok.inj h
        rfl
    · obtain rfl := Except.ok.inj h
      rfl
  · cases h

theorem exists_of_mem_mapM {α β ε : Type} {f : α → Except ε β} {xs : List α} {ys : List β}
    (h : xs.mapM f = .ok ys) : ∀ y ∈ ys, ∃ x ∈ xs, f x = .ok y := by
  induction xs generalizing ys with
  | nil =>
    obtain rfl := Except.ok.inj h
    simp
  | cons x xs ih =>
    rw [List.mapM_cons] at h
    cases hx : f x with
    | error e =>
      rw [hx] at h
      cases h
    | ok y =>
      rw [hx] at h
      cases hxs : xs.mapM f with
      | error e =>
        rw [hxs] at h
        cases h
      | ok rest =>
        rw [hxs] at h
        obtain rfl := Except.ok.inj h
        intro z hz
        rcases List.mem_cons.1 hz with rfl | hz
        · exact ⟨x, List.mem_cons_self, hx⟩
        · obtain ⟨x', hx', hfound⟩ := ih hxs z hz
          exact ⟨x', List.mem_cons_of_mem x hx', hfound⟩

/-- A table that values are entered into holds what was entered, row by row. -/
theorem ofEntries_eq_ok {t : Table} (h : ofEntries entries = .ok t) :
    ∃ entered : List (Address × CellValue), (∀ e ∈ entered, ∃ x ∈ entries, e.1 = x.1) ∧
      t.cells = arrange (fun a b => isBefore a.1 b.1)
        (entered.foldl (fun cells e => e :: cells.filter fun c => c.1 != e.1) []) := by
  unfold ofEntries at h
  cases hentered : entries.mapM fun e => enter e.1 e.2 with
  | error e =>
    rw [hentered] at h
    cases h
  | ok entered =>
    rw [hentered] at h
    obtain rfl := Except.ok.inj h
    refine ⟨entered, fun e he => ?_, rfl⟩
    obtain ⟨x, hx, hfound⟩ := exists_of_mem_mapM hentered e he
    exact ⟨x, hx, address_of_enter hfound⟩

theorem isProper_ofEntries {t : Table} (hentries : ∀ e ∈ entries, 0 ≤ e.1.row)
    (h : ofEntries entries = .ok t) : IsProper t.cells := by
  obtain ⟨entered, hentered, hcells⟩ := ofEntries_eq_ok h
  have hnone : IsProper [] := ⟨by simp, by simp⟩
  rw [hcells]
  refine (isProper_foldl_enter (fun e he => ?_) hnone).of_perm (arrange_perm _ _)
  obtain ⟨x, hx, haddress⟩ := hentered e he
  rw [haddress]
  exact hentries x hx

theorem IsMade.isProper {t : Table} (h : t.IsMade) : IsProper t.cells := by
  cases h with
  | rows rows => exact isProper_ofRows rows
  | entries hentries h => exact isProper_ofEntries hentries h

end

section
variable {cells : List (Address × CellValue)} {t : Table} {a : Address} {v : CellValue}
  {text shown : String} {l : Line}

theorem read_sheet (h : IsProper t.cells) (hcell : (a, v) ∈ t.cells) (hshown : v.shown = .ok shown) :
    t.sheet.read a = .ok shown := by
  unfold sheet Sheet.ofCells
  dsimp only
  rw [lookup_of_mem (b := .ok shown)]
  · rfl
  · rw [List.map_map]
    exact h.nodup
  · refine List.mem_map.2 ⟨(a, v), hcell, ?_⟩
    dsimp only
    rw [hshown]

theorem exists_shown_of_lineText (h : v.lineText = .ok text) :
    ∃ shown, v.shown = .ok shown ∧
      (text = shown ∨ ∃ rest, shown.toList = '=' :: rest ∧ text = String.ofList (strip rest)) := by
  unfold CellValue.lineText at h
  cases hshown : v.shown with
  | error fault =>
    rw [hshown] at h
    cases h
  | ok shown =>
    rw [hshown] at h
    refine ⟨shown, rfl, ?_⟩
    obtain rfl := Except.ok.inj h
    dsimp only
    split
    · rename_i rest hrest
      exact .inr ⟨rest, hrest, rfl⟩
    · exact .inl rfl

theorem line?_eq_some (h : line? a v = .ok (some l)) :
    v.lineText = .ok l.text ∧ a.label = .ok l.id ∧ l.place.address = some a := by
  unfold line? at h
  cases htext : v.lineText with
  | error fault =>
    rw [htext] at h
    cases h
  | ok text =>
    rw [htext] at h
    dsimp only at h
    split at h
    · cases h
    · cases hid : a.label with
      | error cause =>
        rw [hid] at h
        cases h
      | ok id =>
        rw [hid] at h
        obtain rfl := Option.some.inj (Except.ok.inj h)
        exact ⟨rfl, rfl, rfl⟩

theorem exists_cell_of_mem_linesOf {lines : List Line} (h : linesOf cells = .ok lines) (hl : l ∈ lines) :
    ∃ c ∈ cells, line? c.1 c.2 = .ok (some l) := by
  induction cells generalizing lines with
  | nil =>
    obtain rfl := Except.ok.inj h
    cases hl
  | cons c cells ih =>
    obtain ⟨a, v⟩ := c
    rw [linesOf] at h
    cases hfound : line? a v with
    | error fault =>
      rw [hfound] at h
      cases h
    | ok found =>
      rw [hfound] at h
      cases hrest : linesOf cells with
      | error fault =>
        rw [hrest] at h
        cases h
      | ok rest =>
        rw [hrest] at h
        obtain rfl := Except.ok.inj h
        rcases List.mem_append.1 hl with hl | hl
        · rw [Option.mem_toList] at hl
          exact ⟨(a, v), List.mem_cons_self, hl ▸ hfound⟩
        · obtain ⟨c, hc, hline⟩ := ih hrest hl
          exact ⟨c, List.mem_cons_of_mem _ hc, hline⟩

theorem exists_cell_of_mem_document {d : Document} (h : t.document = .ok d) (hl : l ∈ d.lines) :
    ∃ a v, (a, v) ∈ t.cells ∧ v.lineText = .ok l.text ∧ a.label = .ok l.id ∧
      l.place.address = some a := by
  unfold document at h
  cases hlines : linesOf t.cells with
  | error fault =>
    rw [hlines] at h
    cases h
  | ok lines =>
    rw [hlines] at h
    obtain rfl := Except.ok.inj h
    obtain ⟨⟨a, v⟩, hc, hline⟩ := exists_cell_of_mem_linesOf hlines hl
    exact ⟨a, v, hc, line?_eq_some hline⟩

end

end Table

end UnitSheet
