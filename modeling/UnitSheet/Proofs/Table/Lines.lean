import UnitSheet.Proofs.Address.Texts
import UnitSheet.Proofs.Document.Reading
import UnitSheet.Proofs.Number.Numeral
import UnitSheet.Proofs.Table.Cells
import UnitSheet.Proofs.Text.Blanks

set_option autoImplicit false

namespace UnitSheet

/-- A text without one equals sign in front and without the blanks around the rest. -/
def bareText (shown : String) : String :=
  String.ofList (strip (match shown.toList with
    | '=' :: rest => rest
    | cs => cs))

theorem strip_literalText (x : Float) : strip (literalText x).toList = (literalText x).toList := by
  cases hx : Binary.ofFloat? x with
  | none =>
    rw [literalText, numberText, hx]
    dsimp only
    split_ifs <;> decide +kernel
  | some b =>
    obtain ⟨n, hn, -, htext⟩ := literalText_eq_numeral hx
    have hsign : ∀ c ∈ Decimal.signText (b.negative && b.significand != 0), isBlank c = false := by
      intro c hc
      unfold Decimal.signText at hc
      split at hc
      · rw [List.mem_singleton.1 hc]
        decide
      · cases hc
    rw [htext]
    refine strip_of_visible fun c hc => ?_
    exact (List.mem_append.1 hc).elim (hsign c) (hn.isBlank_eq_false c)

section
variable {v : CellValue} {s : String}

theorem strip_shown (h : v.shown = .ok s) : strip s.toList = s.toList := by
  have hstrip : ∀ r : String, strip (CellValue.stripText r).toList = (CellValue.stripText r).toList := by
    intro r
    rw [CellValue.stripText, String.toList_ofList, strip_strip]
  cases v with
  | blank =>
    obtain rfl := Except.ok.inj h
    rfl
  | text r =>
    obtain rfl := Except.ok.inj h
    exact hstrip r
  | flag b =>
    obtain rfl := Except.ok.inj h
    cases b <;> decide +kernel
  | integer n =>
    unfold CellValue.shown at h
    dsimp only at h
    split at h
    · cases h
    · obtain rfl := Except.ok.inj h
      exact strip_literalText _
  | number x =>
    obtain rfl := Except.ok.inj h
    split
    · rfl
    · exact strip_literalText x
  | rich pieces =>
    obtain rfl := Except.ok.inj h
    exact hstrip _
  | array formula =>
    obtain rfl := Except.ok.inj h
    exact hstrip formula

theorem bareText_of_equal {rest : List Char} (h : s.toList = '=' :: rest) :
    bareText s = String.ofList (strip rest) := by
  simp [bareText, h]

theorem bareText_of_ne (h : ∀ rest, s.toList ≠ '=' :: rest) :
    bareText s = String.ofList (strip s.toList) := by
  unfold bareText
  split
  · rename_i rest hrest
    exact absurd hrest (h rest)
  · rfl

theorem lineText_of_shown (h : v.shown = .ok s) : v.lineText = .ok (bareText s) := by
  rw [CellValue.lineText, h]
  refine congrArg Except.ok ?_
  dsimp only
  split
  · rename_i rest hrest
    rw [bareText_of_equal hrest]
  · rename_i hnone
    rw [bareText_of_ne hnone, strip_shown h, String.ofList_toList]

end

namespace Table

/-- Tables in which every cell has a label: rows that are not too long, or values that are entered
into cells with labels. -/
inductive IsLabelled : Table → Prop
  | rows {rows : List (List CellValue)} :
      (∀ row ∈ rows, row.length ≤ columnCount) → IsLabelled (.ofRows rows)
  | entries {entries : List (Address × CellValue)} {t : Table} :
      (∀ e ∈ entries, 0 ≤ e.1.row ∧ 0 ≤ e.1.col ∧ e.1.col < columnCount) →
        ofEntries entries = .ok t → IsLabelled t

section
variable {t : Table} {cells entries : List (Address × CellValue)}

theorem IsLabelled.isMade (h : t.IsLabelled) : t.IsMade := by
  cases h with
  | rows _ => exact .rows _
  | entries hentries h => exact .entries (fun e he => (hentries e he).1) h

theorem forall_foldl_enter {P : Address → Prop} (hentries : ∀ e ∈ entries, P e.1)
    (h : ∀ c ∈ cells, P c.1) :
    ∀ c ∈ entries.foldl (fun cells e => e :: cells.filter fun c => c.1 != e.1) cells, P c.1 := by
  induction entries generalizing cells with
  | nil => exact h
  | cons e entries ih =>
    rw [List.foldl_cons]
    refine ih (fun e' he' => hentries e' (List.mem_cons_of_mem e he')) fun c hc => ?_
    rcases List.mem_cons.1 hc with rfl | hc
    · exact hentries c List.mem_cons_self
    · exact h c (List.mem_of_mem_filter hc)

theorem IsLabelled.col (h : t.IsLabelled) : ∀ c ∈ t.cells, 0 ≤ c.1.col ∧ c.1.col < columnCount := by
  cases h with
  | rows hrows =>
    intro c hc
    obtain ⟨⟨row, i⟩, hrow, hc⟩ := List.mem_flatMap.1 hc
    obtain ⟨⟨value, j⟩, hj, rfl⟩ := List.mem_map.1 hc
    have hlast := hrows row (List.fst_mem_of_mem_zipIdx hrow)
    have hcol : j < row.length := by simpa using List.snd_lt_of_mem_zipIdx hj
    exact ⟨Int.natCast_nonneg j, Int.ofNat_lt.2 (Nat.lt_of_lt_of_le hcol hlast)⟩
  | entries hentries h =>
    obtain ⟨entered, hentered, hcells⟩ := ofEntries_eq_ok h
    rw [hcells]
    intro c hc
    refine forall_foldl_enter (P := fun a => 0 ≤ a.col ∧ a.col < columnCount) (fun e he => ?_)
      (by simp) c ((arrange_perm _ _).mem_iff.1 hc)
    obtain ⟨x, hx, haddress⟩ := hentered e he
    rw [haddress]
    exact (hentries x hx).2

def InOrder (cells : List (Address × CellValue)) : Prop :=
  cells.Pairwise fun c d => isBefore d.1 c.1 = false

theorem inOrder_ofRows (rows : List (List CellValue)) : InOrder (ofRows rows).cells := by
  refine List.pairwise_flatMap.2 ⟨fun row _ => ?_, (pairwise_lt_zipIdx rows).imp fun hrow c hc d hd => ?_⟩
  · refine List.pairwise_map.2 ((pairwise_lt_zipIdx row.1).imp fun hcol => ?_)
    simp [isBefore, Nat.le_of_lt hcol]
  · obtain ⟨_, -, rfl⟩ := List.mem_map.1 hc
    obtain ⟨_, -, rfl⟩ := List.mem_map.1 hd
    have hne := Nat.ne_of_gt hrow
    simp [isBefore, hne, Nat.le_of_lt hrow]

theorem isBefore_asymm {a b : Address} (h : isBefore a b = true) : isBefore b a = false := by
  unfold isBefore at h ⊢
  split_ifs at h ⊢ <;> simp only [decide_eq_true_eq, decide_eq_false_iff_not] at * <;> omega

theorem isBefore_trans {a b c : Address} (hba : isBefore b a = false) (hcb : isBefore c b = false) :
    isBefore c a = false := by
  unfold isBefore at hba hcb ⊢
  split_ifs at hba hcb ⊢ <;> simp only [decide_eq_false_iff_not] at * <;> omega

theorem IsMade.inOrder (h : t.IsMade) : InOrder t.cells := by
  cases h with
  | rows rows => exact inOrder_ofRows rows
  | entries _ h =>
    obtain ⟨entered, -, hcells⟩ := ofEntries_eq_ok h
    rw [hcells]
    exact @pairwise_arrange _ (fun a b : Address × CellValue => isBefore a.1 b.1)
      (fun _ _ _ => isBefore_trans) (fun _ _ => isBefore_asymm) _

variable {a : Address} {v : CellValue} {s : String} {l : Line}

def lineAt (c : Address × CellValue) : Option Line :=
  match line? c.1 c.2 with
  | .ok found => found
  | .error _ => none

theorem linesOf_eq_ok (h : ∀ c ∈ cells, line? c.1 c.2 = .ok (lineAt c)) :
    linesOf cells = .ok (cells.filterMap lineAt) := by
  induction cells with
  | nil => rfl
  | cons c cells ih =>
    rw [linesOf, h c List.mem_cons_self, ih fun d hd => h d (List.mem_cons_of_mem c hd),
      List.filterMap_cons]
    cases lineAt c <;> rfl

theorem lineAt_eq_some {c : Address × CellValue} (h : lineAt c = some l) :
    c.2.lineText = .ok l.text ∧ c.1.label = .ok l.id ∧ l.place.address = some c.1 := by
  unfold lineAt at h
  split at h
  · rename_i found hfound
    rw [h] at hfound
    exact line?_eq_some hfound
  · cases h

theorem line?_of_shown (hcol : 0 ≤ a.col) (hlast : a.col < columnCount) (hs : v.shown = .ok s) :
    line? a v = .ok (lineAt (a, v)) ∧ ((lineAt (a, v)).isSome = true ↔ bareText s ≠ "") := by
  obtain ⟨id, hid⟩ := exists_label hcol hlast
  unfold lineAt line?
  rw [lineText_of_shown hs, hid]
  dsimp only
  split
  · rename_i hnone
    simp [hnone]
  · rename_i hsome
    simp [hsome]

theorem read_of_mem (h : IsProper t.cells) (hcell : (a, v) ∈ t.cells) : t.read a = v.shown := by
  rw [read, lookup_of_mem h.nodup hcell]

theorem pairwise_lineAt (hnodup : (cells.map Prod.fst).Nodup) (horder : InOrder cells) :
    (cells.filterMap lineAt).Pairwise fun l l' =>
      l.place.address ≠ l'.place.address ∧ l'.place.isBeforeCell l.place = false := by
  refine List.pairwise_filterMap.2 (((List.pairwise_map.1 hnodup).and horder).imp ?_)
  rintro c c' ⟨hne, hbefore⟩ l hl l' hl'
  obtain ⟨-, -, ha⟩ := lineAt_eq_some hl
  obtain ⟨-, -, ha'⟩ := lineAt_eq_some hl'
  rw [Place.isBeforeCell, ha, ha']
  exact ⟨fun hsame => hne (Option.some.inj hsame), hbefore⟩

theorem ordered_of_pairwise {d : Document} (hgrid : d.layout = .grid)
    (h : d.lines.Pairwise fun l l' => l'.place.isBeforeCell l.place = false) : d.ordered = d.lines := by
  have hplaced : d.IsPlaced := fun hcanvas => by simp [hgrid] at hcanvas
  rw [ordered_eq_arrange hplaced]
  refine List.mergeSort_of_pairwise (h.imp fun {l l'} hbefore => ?_)
  rw [Document.isBefore, hgrid, Layout.isBefore, hbefore]
  rfl

end

/-- The document of a table whose cells have labels and show texts has one line for each cell with a
text to read, and no other lines. Their ids are different and read back as their addresses, they are
read in the order in which they are listed, and their texts are what reading the cells gives, bare. -/
theorem document_mirrors {t : Table} (ht : t.IsLabelled) (hshown : ∀ c ∈ t.cells, ∃ s, c.2.shown = .ok s) :
    ∃ d, t.document = .ok d ∧
      (∀ a, (∃ l ∈ d.lines, l.place.address = some a) ↔
        ∃ v s, (a, v) ∈ t.cells ∧ v.shown = .ok s ∧ bareText s ≠ "") ∧
      (d.lines.map fun l => l.place.address).Nodup ∧
      (d.lines.map Line.id).Nodup ∧
      d.ordered = d.lines ∧
      ∀ l ∈ d.lines, ∃ a s, l.place.address = some a ∧ Address.ofText? l.id = some a ∧
        t.read a = .ok s ∧ t.sheet.read a = .ok s ∧ l.text = bareText s := by
  have hproper := ht.isMade.isProper
  have hpairs := pairwise_lineAt hproper.nodup ht.isMade.inOrder
  have hdocument : t.document = .ok ⟨t.cells.filterMap lineAt, .grid, .empty⟩ := by
    rw [document, linesOf_eq_ok fun c hc => ?_]
    · rfl
    · obtain ⟨s, hs⟩ := hshown c hc
      exact (line?_of_shown (ht.col c hc).1 (ht.col c hc).2 hs).1
  have hline : ∀ l ∈ t.cells.filterMap lineAt, ∃ a s, l.place.address = some a ∧
      Address.ofText? l.id = some a ∧ t.read a = .ok s ∧ t.sheet.read a = .ok s ∧
        l.text = bareText s := by
    intro l hl
    obtain ⟨⟨a, v⟩, hc, hl⟩ := List.mem_filterMap.1 hl
    obtain ⟨htext, hid, ha⟩ := lineAt_eq_some hl
    obtain ⟨s, hs⟩ := hshown _ hc
    exact ⟨a, s, ha, ofText?_of_label (hproper.row _ hc) hid, (read_of_mem hproper hc).trans hs,
      read_sheet hproper hc hs, Except.ok.inj (htext.symm.trans (lineText_of_shown hs))⟩
  refine ⟨_, hdocument, fun a => ?_, ?_, ?_, ?_, hline⟩
  · constructor
    · rintro ⟨l, hl, hla⟩
      obtain ⟨⟨a', v⟩, hc, hl⟩ := List.mem_filterMap.1 hl
      obtain ⟨-, -, ha⟩ := lineAt_eq_some hl
      obtain rfl := Option.some.inj (ha.symm.trans hla)
      obtain ⟨s, hs⟩ := hshown _ hc
      have hsome := (line?_of_shown (ht.col _ hc).1 (ht.col _ hc).2 hs).2
      exact ⟨v, s, hc, hs, hsome.1 (by rw [hl]; rfl)⟩
    · rintro ⟨v, s, hc, hs, htext⟩
      have hsome := (line?_of_shown (ht.col _ hc).1 (ht.col _ hc).2 hs).2
      obtain ⟨l, hl⟩ := Option.isSome_iff_exists.1 (hsome.2 htext)
      exact ⟨l, List.mem_filterMap.2 ⟨_, hc, hl⟩, (lineAt_eq_some hl).2.2⟩
  · exact List.pairwise_map.2 (hpairs.imp fun h => h.1)
  · -- Lines with one id would stand at one address.
    refine List.pairwise_map.2 (hpairs.imp_of_mem fun {l l'} hl hl' h hid => h.1 ?_)
    obtain ⟨a, -, ha, hread, -⟩ := hline l hl
    obtain ⟨a', -, ha', hread', -⟩ := hline l' hl'
    rw [ha, ha', ← hread, ← hread', hid]
  · exact ordered_of_pairwise rfl (hpairs.imp fun h => h.2)

def cornerTable : Table := .ofRows [[.text " = 5 in ", .blank], [.text "=", .text "A1 * 2"]]

theorem document_mirrors_cornerTable : cornerTable.IsLabelled ∧
    (∀ c ∈ cornerTable.cells, ∃ s, c.2.shown = .ok s) ∧
      ∃ d, cornerTable.document = .ok d ∧ d.ordered = d.lines ∧
        (∃ l ∈ d.lines, l.place.address = some ⟨0, 0⟩ ∧ l.text = "5 in") ∧
          ¬ ∃ l ∈ d.lines, l.place.address = some ⟨1, 0⟩ := by
  have hcells : cornerTable.cells = [(⟨0, 0⟩, .text " = 5 in "), (⟨0, 1⟩, .blank),
      (⟨1, 0⟩, .text "="), (⟨1, 1⟩, .text "A1 * 2")] := rfl
  have hlabelled : cornerTable.IsLabelled := .rows (by simp [columnCount])
  have hshown : ∀ c ∈ cornerTable.cells, ∃ s, c.2.shown = .ok s := by
    rw [hcells]
    simp [CellValue.shown]
  obtain ⟨d, hd, hlines, -, -, horder, htexts⟩ := document_mirrors hlabelled hshown
  refine ⟨hlabelled, hshown, d, hd, horder, ?_, ?_⟩
  · have hmem : (⟨0, 0⟩, .text " = 5 in ") ∈ cornerTable.cells := hcells ▸ List.mem_cons_self
    have hfirst : CellValue.stripText " = 5 in " = "= 5 in" := by decide +kernel
    have hbare : bareText "= 5 in" = "5 in" := by decide +kernel
    obtain ⟨l, hl, ha⟩ := (hlines ⟨0, 0⟩).2
      ⟨_, "= 5 in", hmem, congrArg Except.ok hfirst, by simp [hbare]⟩
    obtain ⟨a, s, ha', -, hread, -, htext⟩ := htexts l hl
    obtain rfl := Option.some.inj (ha'.symm.trans ha)
    rw [read_of_mem hlabelled.isMade.isProper hmem] at hread
    obtain rfl := hfirst.symm.trans (Except.ok.inj hread)
    exact ⟨l, hl, ha, htext.trans hbare⟩
  · rw [hlines]
    rintro ⟨v, s, hc, hs, htext⟩
    obtain rfl : v = .text "=" := by simpa [hcells] using hc
    obtain rfl := Except.ok.inj hs
    exact htext (by decide +kernel)

end Table

end UnitSheet
