import Mathlib.Data.List.DropRight
import UnitSheet.Text.Blank

set_option autoImplicit false

namespace UnitSheet

section
variable {cs bs : List Char} {c : Char}

theorem isBlank_of_mem_space : ∀ b ∈ [' '], isBlank b = true := by
  intro b hb
  rw [List.mem_singleton.1 hb]
  decide

theorem stripRight_eq (cs : List Char) : stripRight cs = cs.rdropWhile isBlank := rfl

theorem exists_append_stripRight (cs : List Char) :
    ∃ bs, (∀ b ∈ bs, isBlank b = true) ∧ cs = stripRight cs ++ bs :=
  ⟨cs.rtakeWhile isBlank, fun _ => List.mem_rtakeWhile_imp, (List.rdropWhile_append_rtakeWhile ..).symm⟩

theorem getLast?_stripRight (cs : List Char) : ∀ d ∈ (stripRight cs).getLast?, isBlank d = false := by
  intro d hd
  rw [← Bool.not_eq_true]
  have hne : stripRight cs ≠ [] := by
    intro hnil
    rw [hnil] at hd
    cases hd
  have hlast : ¬ isBlank ((stripRight cs).getLast hne) = true :=
    List.rdropWhile_last_not isBlank cs hne
  rwa [Option.some.inj ((List.getLast?_eq_some_getLast hne).symm.trans hd)] at hlast

theorem stripRight_append (hbs : ∀ b ∈ bs, isBlank b = true) : stripRight (cs ++ bs) = stripRight cs := by
  rw [stripRight, List.reverse_append,
    List.dropWhile_append_of_pos fun b hb => hbs b (List.mem_reverse.1 hb), stripRight]

theorem stripRight_of_getLast? (h : ∀ d ∈ cs.getLast?, isBlank d = false) : stripRight cs = cs := by
  refine List.rdropWhile_eq_self_iff.2 fun hne => ?_
  rw [h _ (List.getLast?_eq_some_getLast hne)]
  decide

theorem stripRight_cons (hc : isBlank c = false) (cs : List Char) :
    stripRight (c :: cs) = c :: stripRight cs := by
  obtain ⟨bs, hbs, hcs⟩ := exists_append_stripRight cs
  have hlast : ∀ d ∈ (c :: stripRight cs).getLast?, isBlank d = false := by
    intro d hd
    rw [← List.singleton_append, List.getLast?_append] at hd
    rcases Option.or_eq_some_iff.1 hd with hd | ⟨-, hd⟩
    · exact getLast?_stripRight cs d hd
    · exact Option.some.inj hd ▸ hc
  have hsame : stripRight (c :: stripRight cs ++ bs) = stripRight (c :: stripRight cs) :=
    stripRight_append hbs
  rwa [List.cons_append, ← hcs, stripRight_of_getLast? hlast] at hsame

theorem strip_append (hbs : ∀ b ∈ bs, isBlank b = true) (cs : List Char) : strip (cs ++ bs) = strip cs := by
  rw [strip, stripLeft, List.dropWhile_append]
  split
  · rename_i hempty
    rw [strip, stripLeft, List.isEmpty_iff.1 hempty, List.dropWhile_eq_nil_iff.2 hbs]
  · exact stripRight_append hbs

theorem strip_append_blank (x : List Char) : strip (x ++ [' ']) = strip x :=
  strip_append isBlank_of_mem_space x

theorem strip_prepend (hbs : ∀ b ∈ bs, isBlank b = true) (cs : List Char) : strip (bs ++ cs) = strip cs := by
  rw [strip, stripLeft, List.dropWhile_append_of_pos hbs, strip, stripLeft]

theorem strip_stripRight (cs : List Char) : strip (stripRight cs) = strip cs := by
  obtain ⟨bs, hbs, hcs⟩ := exists_append_stripRight cs
  conv_rhs => rw [hcs]
  exact (strip_append hbs _).symm

theorem exists_append_strip (cs : List Char) : ∃ bs bs', (∀ b ∈ bs, isBlank b = true) ∧
    (∀ b ∈ bs', isBlank b = true) ∧ cs = bs ++ (strip cs ++ bs') := by
  obtain ⟨bs', hbs', hcs⟩ := exists_append_stripRight (stripLeft cs)
  refine ⟨cs.takeWhile isBlank, bs', fun b hb => List.mem_takeWhile_imp hb, hbs', ?_⟩
  rw [strip, ← hcs, stripLeft, List.takeWhile_append_dropWhile]

theorem strip_strip (cs : List Char) : strip (strip cs) = strip cs := by
  obtain ⟨bs, bs', hbs, hbs', hcs⟩ := exists_append_strip cs
  conv_rhs => rw [hcs, strip_prepend hbs, strip_append hbs']

theorem head?_stripLeft_of_strip (h : (strip cs).head? = some c) : (stripLeft cs).head? = some c := by
  obtain ⟨bs, -, hcs⟩ := exists_append_stripRight (stripLeft cs)
  rw [hcs, ← strip, List.head?_append, h]
  rfl

theorem getLast?_stripRight_of_strip (h : (strip cs).getLast? = some c) :
    (stripRight cs).getLast? = some c := by
  obtain ⟨bs, bs', -, hbs', hcs⟩ := exists_append_strip cs
  have hlast : (bs ++ strip cs).getLast? = some c := by
    rw [List.getLast?_append, h]
    rfl
  have hend : ∀ d ∈ (bs ++ strip cs).getLast?, isBlank d = false := by
    rw [hlast, ← h]
    exact getLast?_stripRight (stripLeft cs)
  rw [hcs, ← List.append_assoc, stripRight_append hbs', stripRight_of_getLast? hend, hlast]

theorem mem_of_mem_stripRight (h : c ∈ stripRight cs) : c ∈ cs := by
  obtain ⟨bs, -, hcs⟩ := exists_append_stripRight cs
  rw [hcs]
  exact List.mem_append_left bs h

theorem mem_of_mem_strip (h : c ∈ strip cs) : c ∈ cs :=
  (List.dropWhile_suffix isBlank).subset (mem_of_mem_stripRight h)

theorem strip_ne_nil (h : ∃ c ∈ cs, isBlank c = false) : strip cs ≠ [] := by
  obtain ⟨c, hc, hvisible⟩ := h
  intro hnil
  rw [strip, stripRight_eq, List.rdropWhile_eq_nil_iff] at hnil
  have hblank : isBlank c = true := by
    rw [← List.takeWhile_append_dropWhile (p := isBlank) (l := cs), List.mem_append] at hc
    exact hc.elim (fun hc => List.mem_takeWhile_imp hc) (hnil c)
  rw [hvisible] at hblank
  cases hblank

end

end UnitSheet
