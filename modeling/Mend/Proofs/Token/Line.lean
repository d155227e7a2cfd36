import Mend.Proofs.Token.Scan

/-!
# The lines of scanned tokens

Each step of the scanner passes over some characters and adds to the line the newlines it counts
among them. That need not be all of them, since an escaped newline in a string is passed over
uncounted. As long as there are fewer newlines than line numbers the line never wraps around, and the
tokens of a text are on lines that never decrease.
-/

namespace Mend

namespace Lexer

variable {c : Char} {cs inside rest : List Char} {line : UInt32} {modes : List Mode}
  {found : Option Token} {next : Cursor}

/-- A step from some characters counts newlines among those it passes over. -/
def Counts (cs : List Char) (line : UInt32) (next : Cursor) : Prop :=
  ∃ passed counted, cs = passed ++ next.rest ∧ counted.Sublist passed ∧
    next.line = addLines line counted

/-- A line number is left for every newline to come. -/
def Room (line : UInt32) (rest : List Char) : Prop := line.toNat + rest.count '\n' < UInt32.size

theorem toNat_addLines {passed : List Char} (h : Room line passed) :
    (addLines line passed).toNat = line.toNat + passed.count '\n' := by
  unfold Room at h
  unfold addLines
  rw [UInt32.toNat_add, UInt32.toNat_ofNat', Nat.add_mod_mod, Nat.mod_eq_of_lt h]

namespace Counts

/-- Nothing is counted where the line stays. -/
theorem of_suffix (hrest : next.rest <:+ cs) (hline : next.line = line) :
    Counts cs line next := by
  obtain ⟨passed, rfl⟩ := hrest
  exact ⟨passed, [], rfl, passed.nil_sublist, by simp [addLines, hline]⟩

theorem le (h : Counts cs line next) (hroom : Room line cs) :
    line ≤ next.line ∧ Room next.line next.rest := by
  obtain ⟨passed, counted, rfl, hcounted, hline⟩ := h
  have hcount := hcounted.count_le '\n'
  simp only [Room, List.count_append] at hroom ⊢
  have hnext : next.line.toNat = line.toNat + counted.count '\n' := by
    rw [hline]
    apply toNat_addLines
    unfold Room
    omega
  rw [UInt32.le_iff_toNat_le]
  omega

end Counts

/-! ## One step -/

theorem spanOf_suffix (p : Char → Bool) (cs : List Char) : (spanOf p cs).2 <:+ cs :=
  List.dropWhile_suffix p

theorem templateText_append (cs : List Char) : (templateText cs).1 ++ (templateText cs).2 = cs := by
  fun_induction templateText cs with
  | case1 | case2 | case3 => rfl
  | case4 c cs _ _ ih => exact congrArg (c :: ·) ih

theorem commentText?_append (h : commentText? cs = some (inside, rest)) :
    cs = inside ++ '*' :: '/' :: rest := by
  fun_induction commentText? cs generalizing inside with
  | case1 => cases h
  | case2 =>
    cases h
    rfl
  | case3 c cs _ ih =>
    obtain ⟨⟨inside', rest'⟩, hsome, heq⟩ := Option.map_eq_some_iff.1 h
    cases heq
    rw [ih hsome, List.cons_append]

theorem stringText_suffix (h : stringText cs = .ok (inside, rest)) : rest <:+ cs := by
  fun_induction stringText cs generalizing inside with
  | case1 | case3 | case4 => cases h
  | case2 cs =>
    cases h
    exact List.suffix_cons ..
  | case5 d cs ih =>
    obtain ⟨⟨inside', rest'⟩, hrest, heq⟩ := Except.map_eq_ok h
    cases heq
    exact (ih hrest).trans ((List.suffix_cons d cs).trans (List.suffix_cons ..))
  | case6 d cs _ _ _ _ ih =>
    obtain ⟨⟨inside', rest'⟩, hrest, heq⟩ := Except.map_eq_ok h
    cases heq
    exact (ih hrest).trans (List.suffix_cons d cs)

theorem number_suffix (cs : List Char) : (number cs).2.2 <:+ cs := by
  have hwhole := spanOf_suffix Char.isDigit cs
  unfold number
  dsimp only
  split
  · rename_i d more hrest
    split
    · have hdecimals := spanOf_suffix Char.isDigit (d :: more)
      rw [hrest] at hwhole
      exact hdecimals.trans ((List.suffix_cons ..).trans hwhole)
    · exact hwhole
  · exact hwhole

theorem symbolStep_suffix (c : Char) (cs : List Char) (line : UInt32) (modes : List Mode) :
    (symbolStep c cs line modes).2.rest <:+ c :: cs ∧ (symbolStep c cs line modes).2.line = line ∧
      (symbolStep c cs line modes).1.line = line := by
  unfold symbolStep
  split
  · exact ⟨List.suffix_cons .., rfl, rfl⟩
  · split
    · exact ⟨(List.suffix_cons ..).trans (List.suffix_cons ..), rfl, rfl⟩
    · exact ⟨List.suffix_cons .., rfl, rfl⟩

/-- A step counts newlines, and a token it finds is on the line it starts from. -/
structure Lined (cs : List Char) (line : UInt32) (found : Option Token) (next : Cursor) : Prop where
  counts : Counts cs line next
  token : ∀ t ∈ found, t.line = line

theorem Lined.of_suffix (hrest : next.rest <:+ cs) (hline : next.line = line)
    (htoken : ∀ t ∈ found, t.line = line) : Lined cs line found next :=
  ⟨.of_suffix hrest hline, htoken⟩

theorem tokenStep_lined (h : tokenStep c cs line modes = .ok (found, next)) :
    Lined (c :: cs) line found next := by
  have htail : cs <:+ c :: cs := List.suffix_cons ..
  unfold tokenStep at h
  split at h
  · cases h
    exact ⟨⟨[c], [c], rfl, List.Sublist.refl _, rfl⟩, nofun⟩
  · split at h
    · cases h
      exact .of_suffix ((spanOf_suffix ..).trans htail) rfl (by rintro t ⟨⟩; rfl)
    · split at h
      · split at h
        · rename_i hstring
          cases h
          exact .of_suffix ((stringText_suffix hstring).trans htail) rfl (by rintro t ⟨⟩; rfl)
        · cases h
      · split at h
        · cases h
          exact .of_suffix (number_suffix _) rfl (by rintro t ⟨⟩; rfl)
        · split at h
          · cases h
            exact .of_suffix ((spanOf_suffix ..).trans htail) rfl (by rintro t ⟨⟩; rfl)
          · obtain ⟨hrest, hline, htoken⟩ := symbolStep_suffix c cs line modes
            cases h
            exact .of_suffix hrest hline (by rintro t ⟨⟩; exact htoken)

theorem codeStep_lined (h : codeStep c cs line modes = .ok (found, next)) :
    Lined (c :: cs) line found next := by
  unfold codeStep at h
  split at h
  · cases h
    refine .of_suffix ?_ rfl nofun
    exact (List.dropWhile_suffix _).trans ((List.suffix_cons ..).trans (List.suffix_cons ..))
  · split at h
    · rename_i rest _ inside rest' hcomment
      cases h
      have hpassed : '/' :: '*' :: rest = ('/' :: '*' :: inside ++ ['*', '/']) ++ rest' := by
        rw [commentText?_append hcomment]
        simp
      have hcounted : inside.Sublist ('/' :: '*' :: inside ++ ['*', '/']) :=
        (((inside.sublist_cons_self '*').trans (List.sublist_cons_self '/' _)).trans
          (List.sublist_append_left ..))
      exact ⟨⟨_, inside, hpassed, hcounted, rfl⟩, nofun⟩
    · cases h
  · exact tokenStep_lined h

theorem templateStep_lined (cs : List Char) (line : UInt32) (modes : List Mode) :
    Lined cs line (some (templateStep cs line modes).1) (templateStep cs line modes).2 := by
  unfold templateStep
  split
  · exact .of_suffix (List.suffix_cons ..) rfl (by rintro t ⟨⟩; rfl)
  · exact .of_suffix ((List.suffix_cons ..).trans (List.suffix_cons ..)) rfl
      (by rintro t ⟨⟩; rfl)
  · exact ⟨⟨_, _, (templateText_append cs).symm, List.Sublist.refl _, rfl⟩, by rintro t ⟨⟩; rfl⟩

theorem step_lined (h : step c cs line modes = .ok (found, next)) :
    Lined (c :: cs) line found next := by
  unfold step at h
  split at h
  · cases h
    exact templateStep_lined ..
  · exact codeStep_lined h

/-! ## All steps -/

/-- Tokens on lines that never decrease. -/
def Ascending (tokens : List Token) : Prop := (tokens.map (·.line)).Pairwise (· ≤ ·)

theorem scan_ascending {cursor : Cursor} {before tokens : List Token}
    (h : scan cursor before = .ok tokens) (hroom : Room cursor.line cursor.rest)
    (hbefore : Ascending before.reverse) (hline : ∀ t ∈ before, t.line ≤ cursor.line) :
    Ascending tokens := by
  -- The tokens found so far are on lines up to that of the cursor.
  have hpush {before : List Token} {t : Token} (hbefore : Ascending before.reverse)
      (hline : ∀ u ∈ before, u.line ≤ t.line) : Ascending (t :: before).reverse := by
    unfold Ascending at hbefore ⊢
    rw [List.reverse_cons, List.map_append, List.pairwise_append]
    refine ⟨hbefore, List.pairwise_singleton .., fun a ha b hb => ?_⟩
    obtain ⟨u, hu, rfl⟩ := List.mem_map.1 ha
    rw [List.map_singleton, List.mem_singleton] at hb
    rw [hb]
    exact hline u (List.mem_reverse.1 hu)
  induction cursor, before using scan.induct with
  | case1 cursor before hrest line hopen =>
    rw [scan_end hrest, hopen] at h
    cases h
  | case2 cursor before hrest hopen =>
    rw [scan_end hrest, hopen] at h
    cases h
    exact hpush hbefore hline
  | case3 cursor before c cs hrest e hstep =>
    rw [scan_step hrest, hstep] at h
    cases h
  | case4 cursor before c cs hrest found next hstep ih =>
    rw [scan_step hrest, hstep] at h
    have hlined := step_lined hstep
    obtain ⟨hle, hroom'⟩ := hlined.counts.le (hrest ▸ hroom)
    cases found with
    | none => exact ih h hroom' hbefore fun t ht => UInt32.le_trans (hline t ht) hle
    | some t =>
      have ht : t.line = cursor.line := hlined.token t rfl
      refine ih h hroom' (hpush hbefore (ht ▸ hline)) fun u hu => ?_
      rcases List.mem_cons.1 hu with rfl | hold
      · exact ht ▸ hle
      · exact UInt32.le_trans (hline u hold) hle

theorem joinDocumentation_lines (tokens : List Token) :
    ((joinDocumentation tokens).map (·.line)).Sublist (tokens.map (·.line)) := by
  induction tokens with
  | nil => exact List.Sublist.refl _
  | cons t rest ih =>
    rw [joinDocumentation]
    split
    · exact List.Sublist.cons_cons _ (List.nil_sublist _)
    · rename_i next more hjoined
      rw [hjoined] at ih
      split
      · exact List.Sublist.cons_cons _ ((List.sublist_cons_self ..).trans ih)
      · exact List.Sublist.cons_cons _ ih

end Lexer

/-- A text with fewer newlines than line numbers has its tokens on lines that never decrease. -/
theorem Token.ascending_of_scan {text : String} {tokens : List Token}
    (h : scan text = .ok tokens) (hlines : text.toList.count '\n' < UInt32.size - 1) :
    Lexer.Ascending tokens := by
  obtain ⟨found, hscan, rfl⟩ := Except.map_eq_ok h
  have hroom : Lexer.Room 1 text.toList := by
    unfold Lexer.Room
    rw [UInt32.toNat_one]
    omega
  have hfound := Lexer.scan_ascending hscan hroom List.Pairwise.nil nofun
  exact hfound.sublist (Lexer.joinDocumentation_lines found)

end Mend
