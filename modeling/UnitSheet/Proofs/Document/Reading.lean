import UnitSheet.Proofs.Document.Pass

set_option autoImplicit false

namespace UnitSheet

variable {α β : Type}

theorem map_arrange {r : α → α → Bool} {s : β → β → Bool} {f : α → β} {xs : List α}
    (h : ∀ a ∈ xs, ∀ b ∈ xs, r a b = s (f a) (f b)) :
    (arrange r xs).map f = arrange s (xs.map f) :=
  List.map_mergeSort fun a ha b hb => by rw [h b hb a ha]

/-- In the arrangement of an indexed list, what does not compare keeps the order of the indices. -/
theorem pairwise_arrange_indexed {lt : α × Nat → α × Nat → Bool}
    (trans : ∀ a b c, lt b a = false → lt c b = false → lt c a = false)
    (total : ∀ a b, lt a b = true → lt b a = false) {xs : List (α × Nat)}
    (hxs : xs.Pairwise fun a b => a.2 ≤ b.2) :
    (arrange lt xs).Pairwise fun a b => lt b a = false ∧ (lt a b = false → a.2 ≤ b.2) := by
  have htrans : ∀ a b c, (!lt b a) = true → (!lt c b) = true → (!lt c a) = true := by
    simpa using trans
  have htotal : ∀ a b, (!lt b a || !lt a b) = true := by
    intro a b
    cases h : lt b a
    · rfl
    · simp [total b a h]
  have hsorted := List.pairwise_mergeSort (List.zipIdxLE_trans htrans)
    (List.zipIdxLE_total htotal) xs.zipIdx
  rw [arrange, ← List.mergeSort_zipIdx, List.pairwise_map]
  refine hsorted.imp_of_mem fun {a b} ha hb hab => ?_
  have ha := List.mem_zipIdx_iff_getElem?.1 (List.mem_mergeSort.1 ha)
  have hb := List.mem_zipIdx_iff_getElem?.1 (List.mem_mergeSort.1 hb)
  simp only [List.zipIdxLE, Bool.not_eq_true'] at hab
  split at hab
  · rename_i hba
    refine ⟨hba, fun hlt => ?_⟩
    rw [if_pos hlt, decide_eq_true_eq] at hab
    rcases Nat.eq_or_lt_of_le hab with heq | hlt
    · rw [heq, hb] at ha
      exact Nat.le_of_eq (congrArg Prod.snd (Option.some.inj ha).symm)
    · obtain ⟨hi, ha⟩ := List.getElem?_eq_some_iff.1 ha
      obtain ⟨hj, hb⟩ := List.getElem?_eq_some_iff.1 hb
      rw [← ha, ← hb]
      exact List.pairwise_iff_getElem.1 hxs _ _ hi hj hlt
  · cases hab

def Place.rank (c : Float) : Int := (Binary.rank? c).getD 0

def Layout.isBefore (layout : Layout) (p q : Place) : Bool :=
  match layout with
  | .pad => false
  | .canvas =>
    if Place.rank p.y = Place.rank q.y then decide (Place.rank p.x < Place.rank q.x)
    else decide (Place.rank p.y < Place.rank q.y)
  | .grid => p.isBeforeCell q

theorem isBefore_asymm (layout : Layout) (p q : Place) (h : layout.isBefore p q = true) :
    layout.isBefore q p = false := by
  cases layout with
  | pad => rfl
  | canvas =>
    simp only [Layout.isBefore] at h ⊢
    split_ifs at h ⊢ <;> simp only [decide_eq_true_eq, decide_eq_false_iff_not] at * <;> omega
  | grid =>
    simp only [Layout.isBefore, Place.isBeforeCell] at h ⊢
    cases hp : p.address <;> cases hq : q.address <;> simp only [hp, hq, Bool.false_eq_true] at h ⊢
    split_ifs at h ⊢ <;> simp only [decide_eq_true_eq, decide_eq_false_iff_not] at * <;> omega

theorem isBefore_trans (layout : Layout) (p q r : Place) (hqp : layout.isBefore q p = false)
    (hrq : layout.isBefore r q = false) : layout.isBefore r p = false := by
  cases layout with
  | pad => rfl
  | canvas =>
    simp only [Layout.isBefore] at hqp hrq ⊢
    split_ifs at hqp hrq ⊢ <;> simp only [decide_eq_false_iff_not] at * <;> omega
  | grid =>
    simp only [Layout.isBefore, Place.isBeforeCell] at hqp hrq ⊢
    cases hp : p.address <;> cases hq : q.address <;> cases hr : r.address <;>
      simp only [hp, hq, hr, Bool.true_eq_false] at hqp hrq ⊢
    split_ifs at hqp hrq ⊢ <;> simp only [decide_eq_false_iff_not] at * <;> omega

theorem isAbove_eq_isBefore {p q : Place} (hp : p.isDefined = true) (hq : q.isDefined = true) :
    p.isAbove q = Layout.canvas.isBefore p q := by
  simp only [Place.isDefined, Bool.and_eq_true, Option.isSome_iff_exists] at hp hq
  obtain ⟨⟨px, hpx⟩, py, hpy⟩ := hp
  obtain ⟨⟨qx, hqx⟩, qy, hqy⟩ := hq
  simp [Place.isAbove, Place.isLevel, Place.isLess, Layout.isBefore, Place.rank, hpx, hpy, hqx, hqy]

/-- Whether the places of a document say in which order it is read. -/
def Document.IsPlaced (d : Document) : Prop :=
  d.layout = .canvas → ∀ l ∈ d.lines, l.place.isDefined = true

def Document.isBefore (d : Document) (a b : Line) : Bool := d.layout.isBefore a.place b.place

variable {d : Document}

theorem arrange_places (h : d.IsPlaced) :
    d.layout.arrange (d.lines.map Line.place) =
      (arrange (fun a b => d.isBefore a.1 b.1) d.lines.zipIdx).map (Prod.map Line.place id) := by
  have hmap : (d.lines.map Line.place).zipIdx = d.lines.zipIdx.map (Prod.map Line.place id) :=
    List.zipIdx_map
  unfold Layout.arrange Document.isBefore
  cases hlayout : d.layout with
  | pad =>
    have hself : arrange (fun a b : Line × Nat => Layout.pad.isBefore a.1.place b.1.place)
        d.lines.zipIdx = d.lines.zipIdx :=
      List.mergeSort_of_pairwise (List.pairwise_of_forall fun _ _ => rfl)
    rw [hself]
    exact hmap
  | canvas =>
    have hall : ((d.lines.map Line.place).all Place.isDefined) = true := by
      simpa [List.all_eq_true] using h hlayout
    rw [map_arrange (s := fun a b : Place × Nat => a.1.isAbove b.1) fun a ha b hb => ?_, ← hmap]
    · exact if_pos hall
    · have ha := h hlayout a.1 (List.fst_mem_of_mem_zipIdx ha)
      have hb := h hlayout b.1 (List.fst_mem_of_mem_zipIdx hb)
      exact (isAbove_eq_isBefore ha hb).symm
  | grid =>
    rw [map_arrange (s := fun a b : Place × Nat => a.1.isBeforeCell b.1) fun _ _ _ _ => by rfl,
      ← hmap]

theorem numbered_eq_arrange (h : d.IsPlaced) :
    d.numbered = arrange (fun a b => d.isBefore a.1 b.1) d.lines.zipIdx := by
  rw [Document.numbered, Layout.order, arrange_places h, List.map_map]
  exact filterMap_map_snd fun x hx => (arrange_perm _ _).mem_iff.1 hx

theorem ordered_eq_arrange (h : d.IsPlaced) : d.ordered = arrange d.isBefore d.lines := by
  rw [Document.ordered, numbered_eq_arrange h, map_arrange (s := d.isBefore)
    fun _ _ _ _ => by rfl, List.zipIdx_map_fst]

theorem ordered_of_pad (h : d.layout = .pad) : d.ordered = d.lines := by
  have hplaced : d.IsPlaced := fun hcanvas => by simp [h] at hcanvas
  have hnever : ∀ a b, (!d.isBefore b a) = true := by simp [Document.isBefore, h, Layout.isBefore]
  rw [ordered_eq_arrange hplaced]
  exact List.mergeSort_of_pairwise (List.pairwise_of_forall hnever)

/-- The first lines of the reading order, listed in it. -/
def Document.front (d : Document) (k : Nat) : Document :=
  { d with lines := d.ordered.take k, layout := .pad }

theorem ordered_front (d : Document) (k : Nat) : (d.front k).ordered = d.ordered.take k :=
  ordered_of_pad rfl

def Document.upTo (d : Document) (k : Nat) : Document :=
  { d with lines := restoreOrder (d.numbered.take k) }

variable (d) in
theorem pairwise_arrange_lines {xs : List (Line × Nat)} (hxs : xs.Pairwise fun a b => a.2 ≤ b.2) :
    (arrange (fun a b => d.isBefore a.1 b.1) xs).Pairwise fun a b =>
      d.isBefore b.1 a.1 = false ∧ (d.isBefore a.1 b.1 = false → a.2 ≤ b.2) := by
  have htrans : ∀ a b c : Line × Nat, d.isBefore b.1 a.1 = false → d.isBefore c.1 b.1 = false →
      d.isBefore c.1 a.1 = false :=
    fun a b c => isBefore_trans d.layout a.1.place b.1.place c.1.place
  have hasymm : ∀ a b : Line × Nat, d.isBefore a.1 b.1 = true → d.isBefore b.1 a.1 = false :=
    fun a b => isBefore_asymm d.layout a.1.place b.1.place
  exact pairwise_arrange_indexed htrans hasymm hxs

theorem ordered_upTo (h : d.IsPlaced) (k : Nat) : (d.upTo k).ordered = d.ordered.take k := by
  have hmem : ∀ x ∈ d.numbered.take k, x ∈ d.lines.zipIdx := fun x hx =>
    d.numbered_perm.mem_iff.1 (List.mem_of_mem_take hx)
  have hsorted := List.mergeSort_perm (d.numbered.take k) fun a b => decide (a.2 ≤ b.2)
  have harrange : arrange (fun a b => d.isBefore a.1 b.1)
      ((d.numbered.take k).mergeSort fun a b => decide (a.2 ≤ b.2)) = d.numbered.take k := by
    have hperm := (arrange_perm (fun a b => d.isBefore a.1 b.1) _).trans hsorted
    have hnumbered := pairwise_arrange_lines d (pairwise_zipIdx d.lines)
    rw [← numbered_eq_arrange h] at hnumbered
    refine List.Perm.eq_of_pairwise (fun a b ha hb hab hba => ?_)
      (pairwise_arrange_lines d (pairwise_sorted _)) hnumbered.take hperm
    exact eq_of_mem_zipIdx (hmem a (hperm.mem_iff.1 ha)) (hmem b hb)
      (Nat.le_antisymm (hab.2 hba.1) (hba.2 hab.1))
  have hplaced : (d.upTo k).IsPlaced := by
    intro hlayout l hl
    obtain ⟨x, hx, rfl⟩ := List.mem_map.1 hl
    exact h hlayout x.1 (List.fst_mem_of_mem_zipIdx (hmem x (hsorted.mem_iff.1 hx)))
  calc (d.upTo k).ordered
      = arrange d.isBefore (restoreOrder (d.numbered.take k)) := ordered_eq_arrange hplaced
    _ = (arrange (fun a b => d.isBefore a.1 b.1)
          ((d.numbered.take k).mergeSort fun a b => decide (a.2 ≤ b.2))).map Prod.fst :=
        (map_arrange fun _ _ _ _ => by rfl).symm
    _ = d.ordered.take k := by rw [harrange, Document.ordered, List.map_take]

end UnitSheet
