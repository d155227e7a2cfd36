/-!
# Texts made of lines

A text that is written line by line, each with its end, is read back by cutting it at the newlines,
as long as no line has a newline of its own (`splitOn_join_lines`). So the lines are determined by
the text (`join_lines_injective`).
-/

namespace Mend.Text

theorem toList_join_lines_cons (line : String) (lines : List String) :
    (String.join ((line :: lines).map (· ++ "\n"))).toList =
      line.toList ++ '\n' :: (String.join (lines.map (· ++ "\n"))).toList := by
  simp [String.join_cons]

/-- Each line ends with a newline, besides those in it. -/
theorem count_join_lines (lines : List String) :
    (String.join (lines.map (· ++ "\n"))).toList.count '\n' =
      lines.length + (lines.flatMap String.toList).count '\n' := by
  induction lines with
  | nil => rfl
  | cons line lines ih =>
    rw [toList_join_lines_cons, List.count_append, List.count_cons_self, ih, List.flatMap_cons,
      List.count_append, List.length_cons]
    omega

/-- Texts are counted one by one. -/
theorem count_flatMap_congr {α : Type} {f g : α → List Char} {c : Char} {xs : List α}
    (h : ∀ x ∈ xs, (f x).count c = (g x).count c) :
    (xs.flatMap f).count c = (xs.flatMap g).count c := by
  induction xs with
  | nil => rfl
  | cons x xs ih =>
    obtain ⟨hfirst, hothers⟩ := List.forall_mem_cons.1 h
    rw [List.flatMap_cons, List.flatMap_cons, List.count_append, List.count_append, hfirst, ih hothers]

/-- Each newline cuts off one line, and nothing stands behind the last one. -/
theorem splitOn_join_lines {lines : List String} (h : ∀ line ∈ lines, '\n' ∉ line.toList) :
    (String.join (lines.map (· ++ "\n"))).toList.splitOn '\n' =
      lines.map String.toList ++ [[]] := by
  induction lines with
  | nil => rfl
  | cons line lines ih =>
    obtain ⟨hline, hlines⟩ := List.forall_mem_cons.1 h
    rw [toList_join_lines_cons, List.splitOn_append_cons_self_of_not_mem hline, ih hlines]
    rfl

/-- Lines without newlines of their own are determined by the text they make up. -/
theorem join_lines_injective {as bs : List String} (ha : ∀ line ∈ as, '\n' ∉ line.toList)
    (hb : ∀ line ∈ bs, '\n' ∉ line.toList)
    (h : String.join (as.map (· ++ "\n")) = String.join (bs.map (· ++ "\n"))) : as = bs := by
  have hcut := congrArg (fun text => text.toList.splitOn '\n') h
  simp only [splitOn_join_lines ha, splitOn_join_lines hb] at hcut
  exact (List.map_inj_right fun _ _ => String.toList_inj.1).1 (List.append_cancel_right hcut)

end Mend.Text
