import Mend.Proofs.Text.Lines
import Mend.Proofs.Text.Quoted
import Mend.Tree.Outline

/-!
# An outline is of one tree only

An outline is read back in three steps. It is cut into lines, since no line has a newline of its own.
Each line is read as a level and an entry (`outlineLine_inj`): the spaces before it are the level,
its first word tells what it shows, and a quoted text is of one text only. The entries are then
those of one tree (`entries_append_inj`): a line for a token left out belongs to the token that
follows, and a node ends where the level falls back.

What an outline does not show is what `Tree.visible` takes out. `outline_eq_outline_iff` says that
nothing else is lost.
-/

namespace Mend

/-! ## The words that lines begin with -/

/-- A text of letters, at least one. -/
def IsWord (text : String) : Prop := (!text.toList.isEmpty && text.toList.all Char.isAlpha) = true

instance (text : String) : Decidable (IsWord text) := inferInstanceAs (Decidable (_ = true))

namespace IsWord

variable {word : String}

theorem ne_nil (h : IsWord word) : word.toList ≠ [] := by
  intro hnil
  rw [IsWord, hnil] at h
  cases h

theorem isAlpha_of_mem (h : IsWord word) {c : Char} (hc : c ∈ word.toList) : c.isAlpha = true :=
  List.all_eq_true.1 (Bool.and_eq_true_iff.1 h).2 c hc

theorem space_notMem (h : IsWord word) : ' ' ∉ word.toList :=
  fun hmem => absurd (h.isAlpha_of_mem hmem) (by decide)

theorem newline_notMem (h : IsWord word) : '\n' ∉ word.toList :=
  fun hmem => absurd (h.isAlpha_of_mem hmem) (by decide)

end IsWord

theorem isWord_missing : IsWord "missing" := by decide

theorem isWord_invalid : IsWord "invalid" := by decide

namespace Kind

theorem ofName?_name (kind : Kind) : ofName? kind.name = some kind := by
  have htable : ∀ kind ∈ all, ofName? kind.name = some kind := by decide +kernel
  exact htable kind (mem_all kind)

theorem name_injective {a b : Kind} (h : a.name = b.name) : a = b := by
  rw [← Option.some_inj, ← ofName?_name, ← ofName?_name, h]

/-- No name of a kind is taken for one of the words that mark a repaired token. -/
theorem isWord_name (kind : Kind) :
    IsWord kind.name ∧ kind.name ≠ "missing" ∧ kind.name ≠ "invalid" := by
  have htable : ∀ kind ∈ all,
      IsWord kind.name ∧ kind.name ≠ "missing" ∧ kind.name ≠ "invalid" := by decide +kernel
  exact htable kind (mem_all kind)

end Kind

namespace NodeKind

theorem ofName?_name (kind : NodeKind) : ofName? kind.name = some kind := by
  have htable : ∀ kind ∈ all, ofName? kind.name = some kind := by decide +kernel
  exact htable kind (mem_all kind)

theorem name_injective {a b : NodeKind} (h : a.name = b.name) : a = b := by
  rw [← Option.some_inj, ← ofName?_name, ← ofName?_name, h]

theorem isWord_name (kind : NodeKind) : IsWord kind.name := by
  have htable : ∀ kind ∈ all, IsWord kind.name := by decide +kernel
  exact htable kind (mem_all kind)

end NodeKind

/-! ## What is shown of a token and of a tree -/

namespace Token

/-- What the line of a token left out shows: the kind and the text. -/
def label (t : Token) : Token := plain t.kind t.text 1

/-- What the lines of a token show: the text of a supplied token, every line number and all
diagnostics are taken out, and of the tokens left out before it only kind and text remain. -/
def visible (t : Token) : Token :=
  { kind := t.kind
    text := if t.missing then "" else t.text
    line := 1
    missing := t.missing
    invalidLeading := t.invalidLeading.map label
    diagnostics := [] }

end Token

namespace Tree

mutual

/-- A tree with what an outline shows of its tokens. -/
def visible : Tree → Tree
  | token t => token t.visible
  | node kind children => node kind (visibleOf children)

/-- Some trees with what an outline shows of their tokens. -/
def visibleOf : List Tree → List Tree
  | [] => []
  | tree :: rest => visible tree :: visibleOf rest

end

/-! ## What one line shows -/

/-- What a line of an outline shows. -/
inductive Entry where
  | node (kind : NodeKind)
  | token (kind : Kind) (text : String)
  | missing (kind : Kind)
  | invalid (kind : Kind) (text : String)

namespace Entry

/-- A word, and what may stand behind it and a space. -/
def phrase (word : String) : Option String → String
  | none => word
  | some rest => word ++ " " ++ rest

/-- The word that the line of an entry begins with. -/
def word : Entry → String
  | node kind => kind.name
  | token kind _ => kind.name
  | missing _ => "missing"
  | invalid .. => "invalid"

/-- What stands behind the first word. -/
def rest? : Entry → Option String
  | node _ => none
  | token _ text => some (Text.Quoted.encode text)
  | missing kind => some kind.name
  | invalid kind text => some (phrase kind.name (some (Text.Quoted.encode text)))

/-- The line of an entry, without the spaces before it. -/
def content (entry : Entry) : String := phrase entry.word entry.rest?

theorem not_isWord_phrase (word rest : String) : ¬ IsWord (phrase word (some rest)) :=
  fun h => h.space_notMem (by simp [phrase])

theorem phrase_inj {word word' : String} {rest rest' : Option String} (hword : IsWord word)
    (hword' : IsWord word') (h : phrase word rest = phrase word' rest') :
    word = word' ∧ rest = rest' := by
  cases rest with
  | none =>
    cases rest' with
    | none => exact ⟨h, rfl⟩
    | some rest' =>
      subst h
      exact absurd hword (not_isWord_phrase word' rest')
  | some rest =>
    cases rest' with
    | none =>
      subst h
      exact absurd hword' (not_isWord_phrase word rest)
    | some rest' =>
      have hchars := congrArg String.toList h
      simp only [phrase, String.toList_append, List.append_assoc] at hchars
      obtain ⟨hfront, hback⟩ :=
        Text.append_cons_inj hword.space_notMem hword'.space_notMem hchars
      exact ⟨String.toList_inj.1 hfront, congrArg some (String.toList_inj.1 hback)⟩

theorem isWord_word (entry : Entry) : IsWord entry.word := by
  cases entry with
  | node kind => exact kind.isWord_name
  | token kind _ => exact kind.isWord_name.1
  | missing _ => exact isWord_missing
  | invalid _ _ => exact isWord_invalid

/-- The line of an entry tells the entry. -/
theorem content_injective {a b : Entry} (h : a.content = b.content) : a = b := by
  obtain ⟨hword, hrest⟩ := phrase_inj a.isWord_word b.isWord_word h
  cases a with
  | node kind =>
    cases b with
    | node _ => rw [NodeKind.name_injective hword]
    | _ => cases hrest
  | token kind text =>
    cases b with
    | node _ => cases hrest
    | token _ _ =>
      rw [Kind.name_injective hword, Text.Quoted.encode_injective (Option.some.inj hrest)]
    | missing _ => exact absurd hword kind.isWord_name.2.1
    | invalid _ _ => exact absurd hword kind.isWord_name.2.2
  | missing kind =>
    cases b with
    | node _ => cases hrest
    | token kind' _ => exact absurd hword.symm kind'.isWord_name.2.1
    | missing _ => rw [Kind.name_injective (Option.some.inj hrest)]
    | invalid _ _ => exact absurd hword (by decide : "missing" ≠ "invalid")
  | invalid kind text =>
    cases b with
    | node _ => cases hrest
    | token kind' _ => exact absurd hword.symm kind'.isWord_name.2.2
    | missing _ => exact absurd hword (by decide : "invalid" ≠ "missing")
    | invalid kind' _ =>
      obtain ⟨hkind, htext⟩ :=
        phrase_inj kind.isWord_name.1 kind'.isWord_name.1 (Option.some.inj hrest)
      rw [Kind.name_injective hkind, Text.Quoted.encode_injective (Option.some.inj htext)]

theorem newline_notMem_content (entry : Entry) : '\n' ∉ entry.content.toList := by
  have hphrase {word rest : String} (hword : IsWord word) (hrest : '\n' ∉ rest.toList) :
      '\n' ∉ (phrase word (some rest)).toList := by
    simp [phrase, hword.newline_notMem, hrest]
  cases entry with
  | node kind => exact kind.isWord_name.newline_notMem
  | token kind text => exact hphrase kind.isWord_name.1 (Text.Quoted.newline_notMem_encode text)
  | missing kind => exact hphrase isWord_missing kind.isWord_name.1.newline_notMem
  | invalid kind text =>
    exact hphrase isWord_invalid
      (hphrase kind.isWord_name.1 (Text.Quoted.newline_notMem_encode text))

/-- A line does not begin with a space. -/
theorem exists_toList_content (entry : Entry) :
    ∃ c cs, entry.content.toList = c :: cs ∧ c ≠ ' ' := by
  obtain ⟨c, cs, hword⟩ := List.exists_cons_of_ne_nil entry.isWord_word.ne_nil
  have hc : c ≠ ' ' := by
    rintro rfl
    exact entry.isWord_word.space_notMem (hword ▸ List.mem_cons_self)
  rw [content]
  cases entry.rest? with
  | none => exact ⟨c, cs, hword, hc⟩
  | some rest => exact ⟨c, cs ++ ' ' :: rest.toList, by simp [phrase, hword], hc⟩

end Entry

/-- A line tells its level and its entry. -/
theorem outlineLine_inj {level level' : Nat} {a b : Entry}
    (h : outlineLine level a.content = outlineLine level' b.content) : level = level' ∧ a = b := by
  obtain ⟨c, cs, ha, hc⟩ := a.exists_toList_content
  obtain ⟨d, ds, hb, hd⟩ := b.exists_toList_content
  have hchars := congrArg String.toList h
  simp only [outlineLine, String.toList_append, String.toList_ofList, ha, hb] at hchars
  have hspace {n : Nat} : ∀ c ∈ List.replicate n ' ', c = ' ' :=
    fun _ => List.eq_of_mem_replicate
  obtain ⟨hspaces, rfl, rfl⟩ := Text.append_cons_inj_of_forall hspace hspace hc hd hchars
  have hlength := congrArg List.length hspaces
  simp only [List.length_replicate] at hlength
  exact ⟨by omega, Entry.content_injective (String.toList_inj.1 (ha.trans hb.symm))⟩

/-! ## What the lines of a tree show -/

/-- What the line of a token left out shows. -/
def leftOutEntry (level : Nat) (t : Token) : Nat × Entry := (level, .invalid t.kind t.text)

/-- What the last line of a token shows. -/
def ownEntry (level : Nat) (t : Token) : Nat × Entry :=
  (level, if t.missing then .missing t.kind else .token t.kind t.text)

/-- What the lines of a token show. -/
def tokenEntries (level : Nat) (t : Token) : List (Nat × Entry) :=
  t.invalidLeading.map (leftOutEntry level) ++ [ownEntry level t]

mutual

/-- What the lines of a tree show, with their levels. -/
def entries (level : Nat) : Tree → List (Nat × Entry)
  | token t => tokenEntries level t
  | node kind children => (level, .node kind) :: entriesOf (level + 1) children

/-- What the lines of some trees show, with their levels. -/
def entriesOf (level : Nat) : List Tree → List (Nat × Entry)
  | [] => []
  | tree :: rest => entries level tree ++ entriesOf level rest

end

/-- The line of an entry at a level. -/
def entryLine (entry : Nat × Entry) : String := outlineLine entry.1 entry.2.content

theorem outlineToken_eq (level : Nat) (t : Token) :
    outlineToken level t = (tokenEntries level t).map entryLine := by
  have hown : outlineLine level (if t.missing then "missing " ++ t.kind.name else outlineText t) =
      entryLine (ownEntry level t) := by
    unfold ownEntry
    split
    · rfl
    · rfl
  rw [outlineToken, hown, tokenEntries, List.map_append, List.map_map]
  rfl

mutual

theorem outlineLines_eq (level : Nat) (tree : Tree) :
    outlineLines level tree = (entries level tree).map entryLine := by
  cases tree with
  | token t => exact outlineToken_eq level t
  | node kind children =>
    rw [outlineLines, entries, outlineLinesOf_eq, List.map_cons]
    rfl

theorem outlineLinesOf_eq (level : Nat) (trees : List Tree) :
    outlineLinesOf level trees = (entriesOf level trees).map entryLine := by
  cases trees with
  | nil => rfl
  | cons tree rest =>
    rw [outlineLinesOf, entriesOf, outlineLines_eq, outlineLinesOf_eq, List.map_append]

end

theorem outline_eq (tree : Tree) :
    tree.outline = String.join (((entries 0 tree).map entryLine).map (· ++ "\n")) := by
  rw [outline, outlineLines_eq]

theorem newline_notMem_entryLine (entry : Nat × Entry) : '\n' ∉ (entryLine entry).toList := by
  have hspaces : '\n' ∉ List.replicate (2 * entry.1) ' ' :=
    fun hmem => absurd (List.eq_of_mem_replicate hmem) (by decide)
  simp [entryLine, outlineLine, hspaces, entry.2.newline_notMem_content]

/-- An outline tells what its lines show. -/
theorem entries_eq_of_outline_eq {s t : Tree} (h : s.outline = t.outline) :
    entries 0 s = entries 0 t := by
  have hlines (es : List (Nat × Entry)) : ∀ line ∈ es.map entryLine, '\n' ∉ line.toList := by
    intro line hline
    obtain ⟨entry, -, rfl⟩ := List.mem_map.1 hline
    exact newline_notMem_entryLine entry
  rw [outline_eq, outline_eq] at h
  refine (List.map_inj_right fun a b hab => ?_).1 (Text.join_lines_injective (hlines _) (hlines _) h)
  obtain ⟨hlevel, hentry⟩ := outlineLine_inj hab
  exact Prod.ext hlevel hentry

/-! ## Reading trees off what the lines show -/

/-- What follows stands before a level, or there is no more. -/
def EndsBelow (level : Nat) (rest : List (Nat × Entry)) : Prop :=
  ∀ entry ∈ rest.head?, entry.1 < level

theorem endsBelow_nil (level : Nat) : EndsBelow level [] := fun _ h => nomatch h

theorem map_label_eq {xs ys : List Token} {level : Nat}
    (h : xs.map (leftOutEntry level) = ys.map (leftOutEntry level)) :
    xs.map Token.label = ys.map Token.label := by
  induction xs generalizing ys with
  | nil => rw [List.map_eq_nil_iff.1 h.symm]
  | cons x xs ih =>
    cases ys with
    | nil => cases h
    | cons y ys =>
      obtain ⟨hhead, htail⟩ := List.cons.inj h
      obtain ⟨hkind, htext⟩ := Entry.invalid.inj (Prod.mk.inj hhead).2
      rw [List.map_cons, List.map_cons, ih htail, Token.label, hkind, htext, Token.label]

/-- The last line of a token tells it apart from those left out before it. -/
theorem ownEntry_ne (level : Nat) (t : Token) (kind : Kind) (text : String) :
    (ownEntry level t).2 ≠ .invalid kind text := by
  unfold ownEntry
  split
  · exact nofun
  · exact nofun

theorem ownEntry_inj {level : Nat} {s t : Token} (h : ownEntry level s = ownEntry level t) :
    s.kind = t.kind ∧ s.missing = t.missing ∧
      (if s.missing then "" else s.text) = if t.missing then "" else t.text := by
  have hentry := (Prod.mk.inj h).2
  cases hs : s.missing with
  | false =>
    cases ht : t.missing with
    | false =>
      rw [hs, ht] at hentry
      obtain ⟨hkind, htext⟩ := Entry.token.inj hentry
      exact ⟨hkind, rfl, htext⟩
    | true =>
      rw [hs, ht] at hentry
      cases hentry
  | true =>
    cases ht : t.missing with
    | false =>
      rw [hs, ht] at hentry
      cases hentry
    | true =>
      rw [hs, ht] at hentry
      exact ⟨Entry.missing.inj hentry, rfl, rfl⟩

/-- The lines of a token are followed through to its own line. -/
theorem tokenEntries_append_inj {level : Nat} {s t : Token} {us vs : List (Nat × Entry)}
    (h : tokenEntries level s ++ us = tokenEntries level t ++ vs) :
    s.visible = t.visible ∧ us = vs := by
  have hleftOut (xs : List Token) :
      ∀ entry ∈ xs.map (leftOutEntry level), ∃ kind text, entry.2 = .invalid kind text := by
    intro entry hmem
    obtain ⟨x, -, rfl⟩ := List.mem_map.1 hmem
    exact ⟨x.kind, x.text, rfl⟩
  have hown (t : Token) : ¬ ∃ kind text, (ownEntry level t).2 = .invalid kind text :=
    fun ⟨kind, text, h⟩ => ownEntry_ne level t kind text h
  simp only [tokenEntries, List.append_assoc, List.cons_append, List.nil_append] at h
  obtain ⟨hbefore, hlast, hrest⟩ :=
    Text.append_cons_inj_of_forall (hleftOut _) (hleftOut _) (hown s) (hown t) h
  obtain ⟨hkind, hmissing, htext⟩ := ownEntry_inj hlast
  rw [Token.visible, Token.visible, map_label_eq hbefore, hkind, htext, hmissing]
  exact ⟨rfl, hrest⟩

/-- The first line of a tree stands at its level. -/
theorem exists_entries (level : Nat) (tree : Tree) :
    ∃ entry rest, entries level tree = (level, entry) :: rest := by
  cases tree with
  | node kind children => exact ⟨_, _, rfl⟩
  | token t =>
    rw [entries, tokenEntries]
    cases t.invalidLeading with
    | nil => exact ⟨_, _, rfl⟩
    | cons leftOut _ => exact ⟨_, _, rfl⟩

/-- No line of a token is taken for one of a node. -/
theorem tokenEntries_append_ne {level : Nat} {t : Token} {us vs : List (Nat × Entry)}
    {kind : NodeKind} : tokenEntries level t ++ us ≠ (level, .node kind) :: vs := by
  intro h
  rw [tokenEntries] at h
  cases hleftOut : t.invalidLeading with
  | nil =>
    rw [hleftOut] at h
    have hown : (ownEntry level t).2 = .node kind := congrArg Prod.snd (List.cons.inj h).1
    unfold ownEntry at hown
    split at hown <;> cases hown
  | cons leftOut _ =>
    rw [hleftOut] at h
    cases (List.cons.inj h).1

theorem endsBelow_entriesOf_append {level : Nat} {trees : List Tree} {us : List (Nat × Entry)}
    (h : EndsBelow level us) : EndsBelow (level + 1) (entriesOf level trees ++ us) := by
  cases trees with
  | nil => exact fun entry hentry => Nat.lt_succ_of_lt (h entry hentry)
  | cons tree rest =>
    obtain ⟨entry, more, hfirst⟩ := exists_entries level tree
    intro entry' hentry'
    rw [entriesOf, hfirst] at hentry'
    cases hentry'
    exact Nat.lt_succ_self level

theorem ne_entriesOf_cons {level : Nat} {tree : Tree} {rest : List Tree}
    {us vs : List (Nat × Entry)} (h : EndsBelow level us) :
    us ≠ entriesOf level (tree :: rest) ++ vs := by
  rintro rfl
  obtain ⟨entry, more, hfirst⟩ := exists_entries level tree
  rw [entriesOf, hfirst] at h
  exact Nat.lt_irrefl level (h _ rfl)

mutual

/-- Where the lines of two trees start the same lines, both read as one tree. -/
theorem entries_append_inj {level : Nat} {s t : Tree} {us vs : List (Nat × Entry)}
    (hus : EndsBelow (level + 1) us) (hvs : EndsBelow (level + 1) vs)
    (h : entries level s ++ us = entries level t ++ vs) : s.visible = t.visible ∧ us = vs := by
  match s, t with
  | .token a, .token b =>
    obtain ⟨hvisible, hrest⟩ := tokenEntries_append_inj h
    exact ⟨congrArg Tree.token hvisible, hrest⟩
  | .token _, .node _ _ => exact absurd h tokenEntries_append_ne
  | .node _ _, .token _ => exact absurd h.symm tokenEntries_append_ne
  | .node kind children, .node kind' children' =>
    obtain ⟨hhead, htail⟩ := List.cons.inj h
    obtain ⟨hchildren, hrest⟩ := entriesOf_append_inj hus hvs htail
    rw [visible, visible, hchildren, Entry.node.inj (Prod.mk.inj hhead).2]
    exact ⟨rfl, hrest⟩

/-- The lines of some trees at a level are read as trees until the level falls back. -/
theorem entriesOf_append_inj {level : Nat} {ss ts : List Tree} {us vs : List (Nat × Entry)}
    (hus : EndsBelow level us) (hvs : EndsBelow level vs)
    (h : entriesOf level ss ++ us = entriesOf level ts ++ vs) :
    visibleOf ss = visibleOf ts ∧ us = vs := by
  -- If one list ends earlier, the other goes on at this level where what follows is below it.
  match ss, ts with
  | [], [] => exact ⟨rfl, h⟩
  | [], _ :: _ => exact absurd h (ne_entriesOf_cons hus)
  | _ :: _, [] => exact absurd h.symm (ne_entriesOf_cons hvs)
  | s :: ss, t :: ts =>
    rw [entriesOf, entriesOf, List.append_assoc, List.append_assoc] at h
    obtain ⟨hfirst, hothers⟩ :=
      entries_append_inj (endsBelow_entriesOf_append hus) (endsBelow_entriesOf_append hvs) h
    obtain ⟨hmore, hrest⟩ := entriesOf_append_inj hus hvs hothers
    rw [visibleOf, visibleOf, hfirst, hmore]
    exact ⟨rfl, hrest⟩

end

/-! ## What an outline does not show -/

theorem tokenEntries_visible (level : Nat) (t : Token) :
    tokenEntries level t.visible = tokenEntries level t := by
  have hown : ownEntry level t.visible = ownEntry level t := by
    unfold ownEntry Token.visible
    cases t.missing <;> rfl
  rw [tokenEntries, hown, Token.visible, List.map_map]
  rfl

mutual

theorem entries_visible (level : Nat) (tree : Tree) :
    entries level tree.visible = entries level tree := by
  cases tree with
  | token t => exact tokenEntries_visible level t
  | node kind children => rw [visible, entries, entries, entriesOf_visibleOf]

theorem entriesOf_visibleOf (level : Nat) (trees : List Tree) :
    entriesOf level (visibleOf trees) = entriesOf level trees := by
  cases trees with
  | nil => rfl
  | cons tree rest => rw [visibleOf, entriesOf, entriesOf, entries_visible, entriesOf_visibleOf]

end

/-- The outline of a tree is that of no other tree, up to what it does not show of the tokens. -/
theorem outline_eq_outline_iff (s t : Tree) : s.outline = t.outline ↔ s.visible = t.visible := by
  constructor
  · intro h
    have hentries : entries 0 s ++ [] = entries 0 t ++ [] :=
      congrArg (· ++ []) (entries_eq_of_outline_eq h)
    exact (entries_append_inj (endsBelow_nil 1) (endsBelow_nil 1) hentries).1
  · intro h
    rw [outline_eq, outline_eq, ← entries_visible 0 s, ← entries_visible 0 t, h]

end Tree

end Mend
