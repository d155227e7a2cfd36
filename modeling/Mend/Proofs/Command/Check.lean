import Mend.Command.Check

/-!
# Files are checked independently of each other

What the loop over the files has come to is told by the files it has passed, whatever their order
and whichever of them failed (`Tally.foldl_add`): the repairs found in them, with the names of the
files, are what both forms of results report. So the status is the worst that a file checked alone
calls for, whatever the form of the results, and the results are made up of those of the single
files (`check_independent`). So are the complaints (`complaints_check`).
-/

namespace Mend.Command

variable {limits : Limits} {style : Style}

/-! ## What comes of one file -/

namespace Source

/-- The text of the file cannot be had. -/
def Unreadable (source : Source) : Prop := ∃ fault, source.text = .error fault

/-- The file is read, and parsing it is given up. -/
def Aborts (limits : Limits) (source : Source) : Prop :=
  ∃ text reason, source.text = .ok text ∧ Tree.ofText text limits = .error reason

/-- The file is read and parsed. -/
def Parses (limits : Limits) (source : Source) (tree : Tree) : Prop :=
  ∃ text, source.text = .ok text ∧ Tree.ofText text limits = .ok tree

/-- The repairs of a file with its name; none if it cannot be read or parsed. -/
def found (limits : Limits) (source : Source) : List (String × Diagnostic) :=
  match source.tree limits with
  | .error _ => []
  | .ok tree => tree.diagnostics.map (source.name, ·)

/-- Whether a file cannot be read or parsed. -/
def fails (limits : Limits) (source : Source) : Bool := !(source.tree limits).isOk

/-- The complaint about a file. -/
def complaint (limits : Limits) (style : Style) (source : Source) : String :=
  match source.tree limits with
  | .error complaint => style.complain complaint
  | .ok _ => ""

/-- The status that a file calls for. -/
def status (limits : Limits) (source : Source) : Nat :=
  if source.fails limits then 2 else if (source.found limits).length > 0 then 1 else 0

variable {source : Source} {tree : Tree}

theorem tree_eq_ok_iff : source.tree limits = .ok tree ↔ source.Parses limits tree := by
  unfold Source.tree Parses
  cases htext : source.text with
  | error fault => simp
  | ok text => cases hparse : Tree.ofText text limits <;> simp [hparse]

theorem exists_tree_eq_error_iff :
    (∃ complaint, source.tree limits = .error complaint) ↔
      source.Unreadable ∨ source.Aborts limits := by
  unfold Source.tree Unreadable Aborts
  cases htext : source.text with
  | error fault => simp
  | ok text => cases hparse : Tree.ofText text limits <;> simp [hparse]

theorem status_of_error {complaint : String} (h : source.tree limits = .error complaint) :
    source.status limits = 2 := by
  simp [status, fails, h, Except.isOk, Except.toBool]

theorem status_of_ok (h : source.tree limits = .ok tree) :
    source.status limits = if tree.diagnostics = [] then 0 else 1 := by
  cases hrepairs : tree.diagnostics <;>
    simp [status, fails, found, h, hrepairs, Except.isOk, Except.toBool]

/-- A file that cannot be read or parsed calls for two. -/
theorem status_eq_two_iff : source.status limits = 2 ↔ source.Unreadable ∨ source.Aborts limits := by
  rw [← exists_tree_eq_error_iff]
  cases htree : source.tree limits with
  | error complaint => simp [status_of_error htree]
  | ok tree =>
    rw [status_of_ok htree]
    split <;> simp

/-- A file with repairs calls for one. -/
theorem status_eq_one_iff :
    source.status limits = 1 ↔ ∃ tree, source.Parses limits tree ∧ tree.diagnostics ≠ [] := by
  simp only [← tree_eq_ok_iff]
  cases htree : source.tree limits with
  | error complaint => simp [status_of_error htree]
  | ok tree => simp [status_of_ok htree]

/-- A clean file calls for zero. -/
theorem status_eq_zero_iff :
    source.status limits = 0 ↔ ∃ tree, source.Parses limits tree ∧ tree.diagnostics = [] := by
  simp only [← tree_eq_ok_iff]
  cases htree : source.tree limits with
  | error complaint => simp [status_of_error htree]
  | ok tree => simp [status_of_ok htree]

end Source

/-! ## Reports in both forms -/

/-- The repairs of some files with the names of these, in order. -/
def found (limits : Limits) (sources : List Source) : List (String × Diagnostic) :=
  sources.flatMap (Source.found limits)

theorem found_cons (source : Source) (sources : List Source) :
    found limits (source :: sources) = source.found limits ++ found limits sources := rfl

/-- The line that reports a repair. -/
def reportLine (repair : String × Diagnostic) : String :=
  repair.1 ++ ":" ++ repair.2.render ++ "\n"

/-- The object that reports a repair. -/
def reportObject (repair : String × Diagnostic) : Json := repair.2.toReport repair.1

/-- What is written of some repairs when they are found. -/
def Style.shown (style : Style) (repairs : List (String × Diagnostic)) : String :=
  match style.format with
  | .text => if style.quiet then "" else String.join (repairs.map reportLine)
  | .json => ""

/-- What is kept of some repairs for the end. -/
def Style.kept (style : Style) (repairs : List (String × Diagnostic)) : List Json :=
  match style.format with
  | .text => []
  | .json => repairs.map reportObject

theorem Style.shown_append (style : Style) (xs ys : List (String × Diagnostic)) :
    style.shown (xs ++ ys) = style.shown xs ++ style.shown ys := by
  match style with
  | ⟨.text, false⟩ => simp [Style.shown, String.join_append]
  | ⟨.text, true⟩ => rfl
  | ⟨.json, _⟩ => rfl

theorem Style.kept_append (style : Style) (xs ys : List (String × Diagnostic)) :
    style.kept (xs ++ ys) = style.kept xs ++ style.kept ys := by
  match style with
  | ⟨.text, _⟩ => rfl
  | ⟨.json, _⟩ => simp [Style.kept]

theorem Style.shown_nil (style : Style) : style.shown [] = "" := by
  match style with
  | ⟨.text, false⟩ => rfl
  | ⟨.text, true⟩ => rfl
  | ⟨.json, _⟩ => rfl

theorem Style.kept_nil (style : Style) : style.kept [] = [] := by
  match style with
  | ⟨.text, _⟩ => rfl
  | ⟨.json, _⟩ => rfl

/-! ## The loop over the files -/

namespace Tally

theorem report_eq (tally : Tally) (name : String) (d : Diagnostic) :
    tally.report style name d =
      { tally with
        written := tally.written ++ style.shown [(name, d)]
        reports := tally.reports ++ style.kept [(name, d)] } := by
  match style with
  | ⟨.text, false⟩ => simp [report, Style.shown, Style.kept, reportLine]
  | ⟨.text, true⟩ => simp [report, Style.shown, Style.kept]
  | ⟨.json, _⟩ => simp [report, Style.shown, Style.kept, reportObject]

theorem foldl_report (tally : Tally) (name : String) (ds : List Diagnostic) :
    ds.foldl (report style name) tally =
      { tally with
        written := tally.written ++ style.shown (ds.map (name, ·))
        reports := tally.reports ++ style.kept (ds.map (name, ·)) } := by
  induction ds generalizing tally with
  | nil => simp [style.shown_nil, style.kept_nil]
  | cons d ds ih =>
    have hsplit : (d :: ds).map (name, ·) = [(name, d)] ++ ds.map (name, ·) := rfl
    rw [List.foldl_cons, ih, report_eq, hsplit, style.shown_append, style.kept_append]
    simp only [String.append_assoc, List.append_assoc]

/-- One more file adds what comes of it, whatever came before. -/
theorem add_eq (tally : Tally) (source : Source) :
    tally.add limits style source =
      { written := tally.written ++ style.shown (source.found limits)
        complaints := tally.complaints ++ source.complaint limits style
        reports := tally.reports ++ style.kept (source.found limits)
        repairs := tally.repairs + (source.found limits).length
        fatal := tally.fatal || source.fails limits } := by
  unfold add Source.found Source.complaint Source.fails
  cases source.tree limits with
  | error complaint =>
    simp [fail, style.shown_nil, style.kept_nil, Except.isOk, Except.toBool]
  | ok tree => simp [foldl_report, Except.isOk, Except.toBool]

/-- What the loop has come to after some more files. -/
theorem foldl_add (tally : Tally) (sources : List Source) :
    sources.foldl (add limits style) tally =
      { written := tally.written ++ style.shown (found limits sources)
        complaints := tally.complaints ++ String.join (sources.map (Source.complaint limits style))
        reports := tally.reports ++ style.kept (found limits sources)
        repairs := tally.repairs + (found limits sources).length
        fatal := tally.fatal || sources.any (Source.fails limits) } := by
  induction sources generalizing tally with
  | nil => simp [found, style.shown_nil, style.kept_nil]
  | cons source sources ih =>
    rw [List.foldl_cons, ih, add_eq, found_cons, style.shown_append, style.kept_append]
    simp only [String.append_assoc, List.append_assoc, List.length_append, Nat.add_assoc,
      List.map_cons, String.join_cons, List.any_cons, Bool.or_assoc]

end Tally

/-! ## What a check says -/

/-- Of two groups of files the worse one counts. -/
theorem severity_add (f g : Bool) (m n : Nat) :
    (if f || g then 2 else if m + n > 0 then 1 else 0) =
      max (if f then 2 else if m > 0 then 1 else 0) (if g then 2 else if n > 0 then 1 else 0) := by
  cases f <;> cases g <;> grind

theorem status_check (sources : List Source) :
    (check sources limits style).status =
      if sources.any (Source.fails limits) then 2
      else if (found limits sources).length > 0 then 1 else 0 := by
  simp only [check, Tally.foldl_add, Tally.status, Tally.start, Bool.false_or, Nat.zero_add]

/-- The status is the worst that one of the files calls for. -/
theorem status_check_eq_foldr (sources : List Source) :
    (check sources limits style).status = (sources.map (Source.status limits)).foldr max 0 := by
  rw [status_check]
  induction sources with
  | nil => rfl
  | cons source sources ih =>
    rw [List.map_cons, List.foldr_cons, ← ih, Source.status, found_cons, List.length_append,
      List.any_cons, severity_add]

theorem status_check_singleton (source : Source) :
    (check [source] limits style).status = source.status limits := by
  rw [status_check_eq_foldr, List.map_singleton, List.foldr_cons, List.foldr_nil, Nat.max_zero]

/-- In JSON one array of reports is written, also when it is to be quiet. -/
theorem results_check_json (sources : List Source) (quiet : Bool) :
    (check sources limits ⟨.json, quiet⟩).results =
      (Json.array ((found limits sources).map reportObject)).pretty ++ "\n" := by
  simp [check, Tally.foldl_add, Tally.results, Tally.start, Style.shown, Style.kept]

/-- In text the reports are written as lines, and the last line says that there were none. -/
theorem results_check_text (sources : List Source) :
    (check sources limits ⟨.text, false⟩).results =
      String.join ((found limits sources).map reportLine) ++
        if (check sources limits ⟨.text, false⟩).status = 0 then allClean sources.length else "" := by
  rw [status_check]
  simp only [check, Tally.foldl_add, Tally.results, Tally.start, Style.shown, String.empty_append]
  congr 1
  cases sources.any (Source.fails limits) with
  | true => simp
  | false => cases found limits sources <;> simp

/-- The complaints are those about the single files, in order. -/
theorem complaints_check (sources : List Source) :
    (check sources limits style).complaints =
      String.join (sources.map fun source => (check [source] limits style).complaints) := by
  have hall (sources : List Source) : (check sources limits style).complaints =
      String.join (sources.map (Source.complaint limits style)) := by
    simp [check, Tally.foldl_add, Tally.start]
  rw [hall]
  congr 2
  funext source
  rw [hall, List.map_singleton, String.join_cons, String.join_nil, String.append_empty]

/-- Each file is checked as if it were alone. The status is the worst of the single ones, in
whatever form the results are written; the reports of a file follow those of the files before it,
the same ones in both forms. -/
theorem check_independent (sources : List Source) (limits : Limits) :
    (∀ style alone, (check sources limits style).status =
      (sources.map fun source => (check [source] limits alone).status).foldr max 0) ∧
    (∀ source style,
      ((check [source] limits style).status = 2 ↔ source.Unreadable ∨ source.Aborts limits) ∧
      ((check [source] limits style).status = 1 ↔
        ∃ tree, source.Parses limits tree ∧ tree.diagnostics ≠ []) ∧
      ((check [source] limits style).status = 0 ↔
        ∃ tree, source.Parses limits tree ∧ tree.diagnostics = [])) ∧
    (∀ quiet,
      (∀ source, (check [source] limits ⟨.json, quiet⟩).results =
        (Json.array ((source.found limits).map reportObject)).pretty ++ "\n") ∧
      (check sources limits ⟨.json, quiet⟩).results =
        (Json.array (sources.flatMap fun source => (source.found limits).map reportObject)).pretty ++
          "\n") ∧
    (check sources limits ⟨.text, false⟩).results =
      String.join (sources.flatMap fun source => (source.found limits).map reportLine) ++
        if (check sources limits ⟨.text, false⟩).status = 0 then allClean sources.length else "" := by
  refine ⟨fun style alone => ?_, fun source style => ?_, fun quiet => ⟨fun source => ?_, ?_⟩, ?_⟩
  · rw [status_check_eq_foldr]
    simp only [status_check_singleton]
  · rw [status_check_singleton]
    exact ⟨Source.status_eq_two_iff, Source.status_eq_one_iff, Source.status_eq_zero_iff⟩
  · rw [results_check_json, found, List.flatMap_singleton]
  · rw [results_check_json, found, List.map_flatMap]
  · rw [results_check_text, found, List.map_flatMap]

end Mend.Command
