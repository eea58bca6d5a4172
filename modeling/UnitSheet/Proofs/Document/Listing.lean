import Mathlib.Data.List.Pairwise
import UnitSheet.Proofs.Document.Isolation
import UnitSheet.Proofs.Document.Reading

set_option autoImplicit false

namespace UnitSheet

def Layout.tellsApart (layout : Layout) (p q : Place) : Prop :=
  match layout with
  | .pad => False
  | .canvas => ¬ (Place.isLevel p.y q.y = true ∧ Place.isLevel p.x q.x = true)
  | .grid => p.address ≠ q.address

/-- The lines have places, and the layout tells them apart. In a grid this leaves room for one line
without an address. -/
structure Document.IsSpread (d : Document) : Prop where
  placed : d.IsPlaced
  apart : d.lines.Pairwise fun a b => d.layout.tellsApart a.place b.place

section
variable {layout : Layout} {p q : Place}

theorem tellsApart_symm (h : layout.tellsApart p q) : layout.tellsApart q p := by
  have hlevel : ∀ x y, Place.isLevel x y = Place.isLevel y x := by
    intro x y
    unfold Place.isLevel
    cases Binary.rank? x <;> cases Binary.rank? y <;> simp [eq_comm]
  cases layout with
  | pad => exact h
  | canvas =>
    rintro ⟨hy, hx⟩
    exact h ⟨(hlevel p.y q.y).trans hy, (hlevel p.x q.x).trans hx⟩
  | grid => exact Ne.symm h

theorem isBefore_of_tellsApart (hp : layout = .canvas → p.isDefined = true)
    (hq : layout = .canvas → q.isDefined = true) (h : layout.tellsApart p q) :
    layout.isBefore p q = true ∨ layout.isBefore q p = true := by
  cases layout with
  | pad => exact h.elim
  | canvas =>
    have hp := hp rfl
    have hq := hq rfl
    simp only [Place.isDefined, Bool.and_eq_true, Option.isSome_iff_exists] at hp hq
    obtain ⟨⟨px, hpx⟩, py, hpy⟩ := hp
    obtain ⟨⟨qx, hqx⟩, qy, hqy⟩ := hq
    simp only [Layout.tellsApart, Place.isLevel, hpx, hpy, hqx, hqy, decide_eq_true_eq] at h
    simp only [Layout.isBefore, Place.rank, hpx, hpy, hqx, hqy, Option.getD_some]
    split_ifs <;> simp only [decide_eq_true_eq] <;> omega
  | grid =>
    simp only [Layout.tellsApart] at h
    simp only [Layout.isBefore, Place.isBeforeCell]
    cases hpa : p.address with
    | none => cases hqa : q.address with
      | none => exact absurd (hpa.trans hqa.symm) h
      | some b => exact .inr rfl
    | some a => cases hqa : q.address with
      | none => exact .inl rfl
      | some b =>
        have hne : ¬ (a.row = b.row ∧ a.col = b.col) := by
          rintro ⟨hrow, hcol⟩
          obtain rfl : a = b := by
            cases a
            cases b
            simp_all
          exact h (hpa.trans hqa.symm)
        dsimp only
        split_ifs <;> simp only [decide_eq_true_eq] <;> omega

end

section
variable {d e : Document}

theorem eq_of_isBefore (h : d.IsSpread) {a b : Line} (ha : a ∈ d.lines) (hb : b ∈ d.lines)
    (hab : d.isBefore a b = false) (hba : d.isBefore b a = false) : a = b := by
  by_contra hne
  have hsymm : Std.Symm fun a b : Line => d.layout.tellsApart a.place b.place :=
    ⟨fun _ _ => tellsApart_symm⟩
  have hapart := h.apart.forall ha hb hne
  rcases isBefore_of_tellsApart (fun hc => h.placed hc a ha) (fun hc => h.placed hc b hb) hapart with
    hbefore | hbefore
  · exact Bool.false_ne_true (hab.symm.trans hbefore)
  · exact Bool.false_ne_true (hba.symm.trans hbefore)

theorem nodup_of_isSpread (h : d.IsSpread) : d.lines.Nodup := by
  refine h.apart.imp_of_mem fun {a b} ha hb hapart hab => ?_
  subst hab
  have hself : d.isBefore a a = true := by
    have hor := isBefore_of_tellsApart (fun hc => h.placed hc a ha) (fun hc => h.placed hc a ha) hapart
    exact or_self_iff.1 hor
  exact Bool.false_ne_true ((isBefore_asymm d.layout _ _ hself).symm.trans hself)

theorem pairwise_ordered (h : d.IsPlaced) :
    d.ordered.Pairwise fun a b => d.isBefore b a = false := by
  rw [ordered_eq_arrange h]
  exact pairwise_arrange (fun a b c => isBefore_trans d.layout a.place b.place c.place)
    (fun a b => isBefore_asymm d.layout a.place b.place) d.lines

/-- Places that a layout tells apart leave one reading order. -/
theorem ordered_of_perm (h : d.IsSpread) (hlayout : e.layout = d.layout)
    (hlines : e.lines.Perm d.lines) : e.ordered = d.ordered := by
  have hplaced : e.IsPlaced := by
    intro hc l hl
    exact h.placed (hlayout.symm.trans hc) l (hlines.mem_iff.1 hl)
  have hbefore : e.isBefore = d.isBefore := by
    unfold Document.isBefore
    rw [hlayout]
  have hordered := pairwise_ordered hplaced
  rw [hbefore] at hordered
  refine List.Perm.eq_of_pairwise (fun a b ha hb hba hab => ?_) hordered
    (pairwise_ordered h.placed) ((ordered_perm e).trans (hlines.trans (ordered_perm d).symm))
  have ha := hlines.mem_iff.1 ((ordered_perm e).mem_iff.1 ha)
  exact eq_of_isBefore h ha ((ordered_perm d).mem_iff.1 hb) hab hba

theorem exists_turn {i : Nat} {l : Line} (hl : d.lines[i]? = some l) :
    ∃ k : Nat, d.ordered[k]? = some l ∧ (d.numbered.map Prod.snd)[k]? = some i := by
  have hmem : (l, i) ∈ d.numbered :=
    d.numbered_perm.mem_iff.2 (List.mem_zipIdx_iff_getElem?.2 hl)
  obtain ⟨k, hk⟩ := List.mem_iff_getElem?.1 hmem
  refine ⟨k, ?_, ?_⟩
  · rw [Document.ordered, List.getElem?_map, hk]
    rfl
  · rw [List.getElem?_map, hk]
    rfl

variable {o : Options} {sheet : Sheet} {addresses : AddressReader}

/-- What a recomputation lists at an index is what the turn of the line leaves. -/
theorem getElem?_recompute {i k : Nat} (hk : (d.numbered.map Prod.snd)[k]? = some i) :
    (d.recompute o sheet addresses).1.lines[i]? =
      ((runLines o sheet addresses .empty d.numbered).lines.map Prod.fst)[k]? := by
  have hsnd := map_snd_runLines o sheet addresses .empty d.numbered
  rw [← hsnd, List.getElem?_map] at hk
  obtain ⟨⟨done, i'⟩, hdone, rfl⟩ := Option.map_eq_some_iff.1 hk
  rw [List.getElem?_map, hdone]
  exact mem_runLines_of_getElem?.2 (List.mem_of_getElem? hdone)

/-- Where a canvas or a grid tells the places of all lines apart, it does not matter how the lines
are listed: each line has the same kind and outcome wherever it stands, the names and their order
are the same, and so is the fault that ends the pass, if any. -/
theorem recompute_of_perm (h : d.IsSpread) (hlayout : e.layout = d.layout)
    (hlines : e.lines.Perm d.lines) (o : Options) (sheet : Sheet) (addresses : AddressReader) :
    (∀ (i j : Nat) (l : Line), d.lines[i]? = some l → e.lines[j]? = some l →
      ∃ done, (d.recompute o sheet addresses).1.lines[i]? = some done ∧
        (e.recompute o sheet addresses).1.lines[j]? = some done) ∧
    (e.recompute o sheet addresses).1.store = (d.recompute o sheet addresses).1.store ∧
    (e.recompute o sheet addresses).2 = (d.recompute o sheet addresses).2 := by
  have hordered := ordered_of_perm h hlayout hlines
  have hdone : (runLines o sheet addresses .empty e.numbered).lines.map Prod.fst =
      (runLines o sheet addresses .empty d.numbered).lines.map Prod.fst :=
    (runLines_of_map_fst hordered .empty).1
  refine ⟨fun i j l hi hj => ?_, (runLines_of_map_fst hordered .empty).2.1,
    (runLines_of_map_fst hordered .empty).2.2⟩
  obtain ⟨k, hk, hik⟩ := exists_turn hi
  obtain ⟨k', hk', hjk⟩ := exists_turn hj
  -- No line occurs twice, so its turn is the same one in both documents.
  obtain rfl : k = k' := by
    have hnodup := (ordered_perm d).nodup_iff.2 (nodup_of_isSpread h)
    rw [hordered] at hk'
    obtain ⟨hlt, -⟩ := List.getElem?_eq_some_iff.1 hk
    exact (List.getElem?_inj hlt hnodup).1 (hk.trans hk'.symm)
  have hlt : k < (runLines o sheet addresses .empty d.numbered).lines.length := by
    obtain ⟨hlt, -⟩ := List.getElem?_eq_some_iff.1 hik
    rwa [List.length_map, ← length_runLines o sheet addresses .empty] at hlt
  rw [getElem?_recompute hik, getElem?_recompute hjk, hdone, List.getElem?_map,
    List.getElem?_eq_getElem hlt]
  exact ⟨_, rfl, rfl⟩

def scatteredDocument : Document :=
  ⟨[{ id := "1", text := "b = a + 1 ft", place := { x := 2, y := 1 } },
    { id := "2", text := "a = 5 ft", place := { x := 0, y := -0.0 } },
    { id := "3", text := "c = 7 ft", place := { x := 1, y := 0 } },
    { id := "4", text := "a = 3 ft", place := { x := 1, y := 1 } }], .canvas, .empty⟩

theorem recompute_of_perm_scatteredDocument :
    scatteredDocument.IsSpread ∧
    ∃ done, (scatteredDocument.recompute {} .empty .none).1.lines[0]? = some done ∧
      (Document.recompute ⟨scatteredDocument.lines.reverse, .canvas, .empty⟩
        {} .empty .none).1.lines[3]? = some done := by
  have hspread : scatteredDocument.IsSpread := by
    refine ⟨fun _ => ?_, ?_⟩
    · decide +kernel
    · simp only [scatteredDocument, Layout.tellsApart]
      decide +kernel
  have h := recompute_of_perm (e := ⟨scatteredDocument.lines.reverse, .canvas, .empty⟩) hspread rfl
    (List.reverse_perm _) {} .empty .none
  exact ⟨hspread, h.1 0 3 _ rfl rfl⟩

end

end UnitSheet
