import Mathlib.Data.List.Basic
import Mend.Proofs.Machine.Yields

/-!
# Reports along a run

Every repair leaves one report: a supplied token says that it is missing, and a token left out says
that it is invalid. Nothing else is reported, neither on the tokens a machine has taken nor on those
it has left out, supplied or still ahead of it.

The lines of all these tokens, in the order in which they stand in the tree and in the input, are a
timeline. A supplied token is put on the line of the next one of the input, so a timeline that never
decreases stays like that.
-/

namespace Mend

/-- A token left out: it stands for itself alone, and its only report says so. -/
structure Token.Rejected (t : Token) : Prop where
  present : t.missing = false
  leading : t.invalidLeading = []
  report : t.diagnostics = [.invalid t.text t.line]

/-- A token that has a report just if it was supplied, with rejected tokens before it. -/
structure Token.Reported (t : Token) : Prop where
  own : t.diagnostics = if t.missing then [.missing t.kind t.line] else []
  leading : ∀ u ∈ t.invalidLeading, u.Rejected

/-- The reports due on a token: one for each token left out before it, and one if it is missing. -/
def Token.due (t : Token) : List Diagnostic :=
  t.invalidLeading.map (fun u => .invalid u.text u.line) ++
    if t.missing then [.missing t.kind t.line] else []

/-- The lines of a token and of those left out before it. -/
def Token.lines (t : Token) : List UInt32 := t.invalidLeading.map (·.line) ++ [t.line]

namespace Token

variable {t : Token}

theorem IsPlain.reported (h : t.IsPlain) : t.Reported := by
  refine ⟨?_, fun u hu => ?_⟩
  · rw [h.diagnostics, h.present]
    rfl
  · rw [h.leading] at hu
    cases hu

theorem IsPlain.rejected (h : t.IsPlain) : (Machine.reject t).Rejected := by
  refine ⟨h.present, h.leading, ?_⟩
  rw [Machine.reject, report, h.diagnostics]
  rfl

theorem reported_supplied (kind : Kind) (line : UInt32) :
    (supplied kind line (.missing kind line)).Reported :=
  ⟨rfl, nofun⟩

theorem Reported.precededBy (h : t.Reported) {leftOut : List Token}
    (hleft : ∀ u ∈ leftOut, u.Rejected) : (t.precededBy leftOut).Reported := by
  refine ⟨h.own, fun u hu => ?_⟩
  rcases List.mem_append.1 hu with hold | hnew
  · exact h.leading u hold
  · exact hleft u hnew

/-- What is reported is what is due. -/
theorem Reported.diagnostics_eq (h : t.Reported) : Tree.tokenDiagnostics t = t.due := by
  rw [Tree.tokenDiagnostics, due, h.own, List.map_eq_flatMap]
  congr 1
  exact List.flatMap_congr fun u hu => (h.leading u hu).report

/-- A token on which nothing is due is as it stood in the input. -/
theorem Reported.isPlain (h : t.Reported) (hdue : t.due = []) : t.IsPlain := by
  obtain ⟨hleading, hown⟩ := List.append_eq_nil_iff.1 hdue
  have hpresent : t.missing = false := by
    by_cases hmissing : t.missing = true
    · rw [if_pos hmissing] at hown
      cases hown
    · exact Bool.eq_false_iff.2 hmissing
  refine ⟨hpresent, List.map_eq_nil_iff.1 hleading, ?_⟩
  rw [h.own, hpresent]
  rfl

theorem IsPlain.due_eq (h : t.IsPlain) : t.due = [] := by
  rw [due, h.leading, h.present]
  rfl

theorem due_lines (t : Token) : (t.due.map (·.line)).Sublist t.lines := by
  unfold due lines
  rw [List.map_append, List.map_map]
  refine (List.Sublist.refl _).append ?_
  split
  · exact List.Sublist.refl _
  · exact List.nil_sublist _

end Token

/-! ## Lines ahead -/

theorem pairwise_repeat {α : Type} {R : α → α → Prop} {xs ys : List α} {a : α} (ha : R a a)
    (h : (xs ++ a :: ys).Pairwise R) : (xs ++ a :: a :: ys).Pairwise R := by
  rw [List.pairwise_append, List.pairwise_cons] at h ⊢
  obtain ⟨hxs, ⟨hys, hrest⟩, hacross⟩ := h
  refine ⟨hxs, ⟨fun b hb => ?_, List.pairwise_cons.2 ⟨hys, hrest⟩⟩, fun x hx b hb => ?_⟩
  · rcases List.mem_cons.1 hb with rfl | hb
    · exact ha
    · exact hys b hb
  · apply hacross x hx
    rcases List.mem_cons.1 hb with rfl | hb
    · exact List.mem_cons_self
    · exact hb

namespace Reader

variable {r : Reader} {before : List UInt32}

/-- The lines of the tokens to come, up to the end of the input. -/
def linesAhead (r : Reader) : List UInt32 := (r.ahead ++ [r.last]).map (·.line)

/-- A token on the line of the next one may be put before it. -/
theorem ascending_supply (h : (before ++ r.linesAhead).Pairwise (· ≤ ·)) :
    (before ++ r.peek.line :: r.linesAhead).Pairwise (· ≤ ·) := by
  have hnext : ∃ rest, r.linesAhead = r.peek.line :: rest := by
    unfold linesAhead peek peekN
    cases r.ahead <;> exact ⟨_, rfl⟩
  obtain ⟨rest, hrest⟩ := hnext
  rw [hrest] at h ⊢
  exact pairwise_repeat (UInt32.le_refl _) h

/-- Reading moves the next token behind the others, or repeats the end of the input. -/
theorem ascending_read (h : (before ++ r.linesAhead).Pairwise (· ≤ ·)) :
    (before ++ r.peek.line :: r.read.2.linesAhead).Pairwise (· ≤ ·) := by
  cases hahead : r.ahead with
  | nil =>
    have hstays : r.read.2 = r := by simp [read, hahead]
    rw [hstays]
    exact ascending_supply h
  | cons t rest =>
    have hlines : r.linesAhead = r.peek.line :: r.read.2.linesAhead := by
      simp [linesAhead, peek, peekN, read, hahead]
    exact hlines ▸ h

end Reader

namespace Machine

variable {m m' : Machine} {plan : Plan} {ts : List Token}

/-! ## What a run does with tokens -/

/-- A property of machines that nothing changes which a run does with tokens. -/
structure Carried (P : Machine → Prop) : Prop where
  repairs : ∀ {m n : Machine} {i : Instruction}, P m → m.Repairs i n → P n
  take : ∀ {m : Machine}, P m → P m.take
  drain : ∀ {m : Machine}, P m → P m.drain
  same : ∀ {m m' : Machine}, P m → m'.taken = m.taken → m'.leftOut = m.leftOut →
    m'.supplied = m.supplied → m'.session.reader = m.session.reader → P m'

theorem Yields.carried {P : Machine → Prop} (hP : Carried P) (h : Yields m plan ts m')
    (hm : P m) : P m' := by
  induction h with
  | done => exact hm
  | repair _ _ hrepairs _ ih => exact ih (hP.repairs hm hrepairs)
  | expect _ _ _ ih => exact ih (hP.take hm)
  | choose _ _ _ ih => exact ih hm
  | take _ _ ih => exact ih (hP.take hm)
  | drain _ _ ih => exact ih (hP.drain hm)
  | decide _ _ _ ih => exact ih hm
  | quiet _ hi hstep _ ih =>
    have hkept := (unchanged_of_quiet hi hstep).1
    exact ih (hP.same hm (taken_of_quiet hi hstep) hkept.leftOut hkept.supplied hkept.reader)

/-! ## Reports -/

/-- Every token that a machine has met has the reports due on it. -/
structure Reports (m : Machine) : Prop where
  taken : ∀ t ∈ m.taken, t.Reported
  leftOut : ∀ t ∈ m.leftOut, t.Rejected
  supplied : ∀ t ∈ m.supplied, t.Reported ∧ t.invalidLeading = []
  ahead : ∀ t ∈ m.session.reader.ahead, t.IsPlain
  last : m.session.reader.last.IsPlain

namespace Reports

theorem peek (h : Reports m) : m.session.reader.peek.IsPlain := by
  cases hahead : m.session.reader.ahead with
  | nil => simpa [Reader.peek, Reader.peekN, hahead] using h.last
  | cons t rest =>
    have ht := h.ahead t (by rw [hahead]; exact List.mem_cons_self)
    simpa [Reader.peek, Reader.peekN, hahead] using ht

theorem next (h : Reports m) : m.next.Reported ∧ m.next.invalidLeading = [] := by
  unfold Machine.next
  cases hsupplied : m.supplied with
  | some t => exact h.supplied t hsupplied
  | none => exact ⟨h.peek.reported, h.peek.leading⟩

theorem take (h : Reports m) : Reports m.take := by
  refine ⟨fun t ht => ?_, fun t ht => ?_, fun t ht => ?_,
    fun t ht => h.ahead t (Primed.mem_ahead_take ht), (Keeps.take m).last ▸ h.last⟩
  · rw [taken_take] at ht
    rcases List.mem_append.1 ht with hold | hnew
    · exact h.taken t hold
    · rw [List.mem_singleton.1 hnew]
      exact h.next.1.precededBy h.leftOut
  · rw [Primed.leftOut_take] at ht
    cases ht
  · rw [Primed.supplied_take] at ht
    cases ht

theorem of_repairs {n : Machine} {i : Instruction} (h : Reports m) (hrepairs : m.Repairs i n) :
    Reports n := by
  cases hrepairs with
  | leaveOut hnext =>
    refine ⟨h.taken, fun t ht => ?_, nofun,
      fun t ht => h.ahead t (m.session.reader.mem_of_mem_read ht), (Keeps.leaveOut m).last ▸ h.last⟩
    rcases List.mem_append.1 ht with hold | hnew
    · exact h.leftOut t hold
    · rw [List.mem_singleton.1 hnew]
      exact h.peek.rejected
  | supply _ _ =>
    refine ⟨h.taken, h.leftOut, ?_, h.ahead, h.last⟩
    rintro t ⟨⟩
    exact ⟨Token.reported_supplied .., rfl⟩
  | supplyAtEnd _ _ =>
    refine ⟨h.taken, h.leftOut, ?_, h.ahead, h.last⟩
    rintro t ⟨⟩
    exact ⟨Token.reported_supplied .., rfl⟩

theorem drain (h : Reports m) : Reports m.drain := by
  refine ⟨h.taken, fun t ht => ?_, nofun,
    fun t ht => h.ahead t (List.mem_of_mem_drop ht), h.last⟩
  rcases List.mem_append.1 ht with hold | hnew
  · exact h.leftOut t hold
  · obtain ⟨u, hu, rfl⟩ := List.mem_map.1 hnew
    exact (h.ahead u (List.takeWhile_subset _ hu)).rejected

theorem carried : Carried Reports where
  repairs h hrepairs := h.of_repairs hrepairs
  take h := h.take
  drain h := h.drain
  same h htaken hleftOut hsupplied hreader :=
    ⟨htaken ▸ h.taken, hleftOut ▸ h.leftOut, hsupplied ▸ h.supplied, hreader ▸ h.ahead,
      hreader ▸ h.last⟩

end Reports

theorem reports_start {tokens : List Token} (h : ∀ t ∈ tokens, t.IsPlain) (limits : Limits) :
    Reports (.start tokens limits) := by
  refine ⟨nofun, nofun, nofun, fun t ht => h t (Reader.mem_of_mem_ofTokens ht), ?_⟩
  change (Reader.ofTokens tokens).last.IsPlain
  unfold Reader.ofTokens
  split
  · exact Token.isPlain_plain ..
  · rename_i last hlast
    split
    · exact h last (List.mem_of_getLast? hlast)
    · exact Token.isPlain_plain ..

/-! ## Lines -/

/-- The lines of the tokens taken, left out, supplied and still to come. -/
def timeline (m : Machine) : List UInt32 :=
  m.taken.flatMap Token.lines ++ m.leftOut.map (·.line) ++ m.supplied.toList.map (·.line) ++
    m.session.reader.linesAhead

/-- A machine with the reports due, and a timeline that never decreases. -/
structure Ordered (m : Machine) : Prop extends Reports m where
  lines : m.timeline.Pairwise (· ≤ ·)

namespace Ordered

/-- A supplied token may be forgotten. -/
theorem forget (h : Ordered m) :
    (m.taken.flatMap Token.lines ++ m.leftOut.map (·.line) ++
      m.session.reader.linesAhead).Pairwise (· ≤ ·) :=
  h.lines.sublist ((List.sublist_append_left ..).append (List.Sublist.refl _))

theorem take (h : Ordered m) : Ordered m.take := by
  refine ⟨h.toReports.take, ?_⟩
  have hlines := h.lines
  have htaken := taken_take m
  unfold timeline at hlines ⊢
  rw [htaken, Primed.leftOut_take, Primed.supplied_take]
  cases hsupplied : m.supplied with
  | some t =>
    -- The supplied token moves behind those left out, where it stood on the timeline already.
    have hleading := (h.supplied t hsupplied).2
    simpa [Machine.take, Machine.next, hsupplied, Token.lines, Token.precededBy, hleading]
      using hlines
  | none =>
    -- Only the end of the input is taken without being read, and then its line is repeated.
    have hread := Reader.ascending_read h.forget
    simpa [Machine.take, Machine.next, hsupplied, Token.lines, Token.precededBy,
      h.peek.leading] using hread

theorem of_repairs {n : Machine} {i : Instruction} (h : Ordered m) (hrepairs : m.Repairs i n) :
    Ordered n := by
  refine ⟨h.toReports.of_repairs hrepairs, ?_⟩
  cases hrepairs with
  | leaveOut hnext =>
    have hread := Reader.ascending_read h.forget
    simpa [timeline, leaveOut, Machine.taken, reject, Token.report] using hread
  | supply _ _ =>
    have hsupply := Reader.ascending_supply h.forget
    simpa [timeline, provide, attempt, Session.recordAttempt, Machine.taken, Token.supplied]
      using hsupply
  | supplyAtEnd _ _ =>
    have hsupply := Reader.ascending_supply h.forget
    simpa [timeline, provide, Machine.taken, Token.supplied] using hsupply

theorem drain (h : Ordered m) : Ordered m.drain := by
  refine ⟨h.toReports.drain, ?_⟩
  have hforget := h.forget
  have hpassed := List.prefix_iff_eq_append.1
    (List.takeWhile_prefix (l := m.session.reader.ahead) (·.kind != .eof))
  unfold Reader.linesAhead at hforget
  rw [← hpassed] at hforget
  simpa [timeline, Machine.drain, drainReader, Machine.taken, Reader.linesAhead, Function.comp_def,
    reject, Token.report] using hforget

theorem carried : Carried Ordered where
  repairs h hrepairs := h.of_repairs hrepairs
  take h := h.take
  drain h := h.drain
  same h htaken hleftOut hsupplied hreader := by
    refine ⟨Reports.carried.same h.toReports htaken hleftOut hsupplied hreader, ?_⟩
    rw [timeline, htaken, hleftOut, hsupplied, hreader]
    exact h.lines

end Ordered

end Machine

end Mend
