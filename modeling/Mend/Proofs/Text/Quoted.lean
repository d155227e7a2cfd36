import Mend.Text.Quoted

/-!
# Quoted texts are read one way

The written forms of characters make up a prefix code: where two of them start the same text, they
are of the same character, and what follows them is the same (`encodeChar_append_inj`). So a quoted
text is that of one text only, whatever characters are in it (`encode_injective`). It stays on its
line, since no written form has a newline in it (`newline_notMem_encode`).
-/

namespace Mend.Text

section Cut

variable {α : Type}

/-- Two lists that are cut where the first item without a property stands are cut into the same
parts. -/
theorem append_cons_inj_of_forall {p : α → Prop} {a b : α} {xs ys us vs : List α}
    (hxs : ∀ x ∈ xs, p x) (hys : ∀ y ∈ ys, p y) (ha : ¬ p a) (hb : ¬ p b)
    (h : xs ++ a :: us = ys ++ b :: vs) : xs = ys ∧ a = b ∧ us = vs := by
  induction xs generalizing ys with
  | nil =>
    cases ys with
    | nil => exact ⟨rfl, List.cons.inj h⟩
    | cons y ys => exact absurd ((List.cons.inj h).1 ▸ hys y List.mem_cons_self) ha
  | cons x xs ih =>
    cases ys with
    | nil => exact absurd ((List.cons.inj h).1 ▸ hxs x List.mem_cons_self) hb
    | cons y ys =>
      obtain ⟨rfl, htail⟩ := List.cons.inj h
      obtain ⟨rfl, hrest⟩ := ih (List.forall_mem_cons.1 hxs).2 (List.forall_mem_cons.1 hys).2 htail
      exact ⟨rfl, hrest⟩

/-- Two lists that are cut at the first place where an item stands are cut into the same parts. -/
theorem append_cons_inj {a : α} {xs ys us vs : List α} (hxs : a ∉ xs) (hys : a ∉ ys)
    (h : xs ++ a :: us = ys ++ a :: vs) : xs = ys ∧ us = vs := by
  obtain ⟨hfront, _, hrest⟩ := append_cons_inj_of_forall
    (fun x hx => ne_of_mem_of_not_mem hx hxs) (fun y hy => ne_of_mem_of_not_mem hy hys)
    (not_not_intro rfl) (not_not_intro rfl) h
  exact ⟨hfront, hrest⟩

end Cut

namespace Quoted

/-! ## Hexadecimal digits -/

theorem hexDigit_inj : ∀ a < 16, ∀ b < 16, hexDigit a = hexDigit b → a = b := by
  decide

theorem hexDigit_ne : ∀ a < 16, hexDigit a ≠ '\x7d' ∧ hexDigit a ≠ '\n' := by
  decide

theorem hexDigits_ne_nil (n : Nat) : hexDigits n ≠ [] := by
  rw [hexDigits]
  split <;> simp

/-- Neither the brace behind the digits nor a newline is among them. -/
theorem ne_of_mem_hexDigits {n : Nat} {c : Char} (h : c ∈ hexDigits n) : c ≠ '\x7d' ∧ c ≠ '\n' := by
  induction n using hexDigits.induct with
  | case1 n hsmall =>
    rw [hexDigits, if_pos hsmall, List.mem_singleton] at h
    exact h ▸ hexDigit_ne n hsmall
  | case2 n hlarge ih =>
    rw [hexDigits, if_neg hlarge, List.mem_append, List.mem_singleton] at h
    rcases h with hfront | rfl
    · exact ih hfront
    · exact hexDigit_ne _ (Nat.mod_lt n (by decide))

theorem one_lt_length_hexDigits {n : Nat} (h : ¬ n < 16) : 1 < (hexDigits n).length := by
  have hfront := List.length_pos_iff.2 (hexDigits_ne_nil (n / 16))
  rw [hexDigits, if_neg h, List.length_append, List.length_singleton]
  omega

/-- A number is determined by its digits. -/
theorem hexDigits_injective {m n : Nat} (h : hexDigits m = hexDigits n) : m = n := by
  have hlength := congrArg List.length h
  induction m using hexDigits.induct generalizing n with
  | case1 m hm =>
    by_cases hn : n < 16
    · rw [hexDigits, if_pos hm, hexDigits, if_pos hn, List.singleton_inj] at h
      exact hexDigit_inj m hm n hn h
    · have hlong := one_lt_length_hexDigits hn
      rw [← hlength, hexDigits, if_pos hm, List.length_singleton] at hlong
      omega
  | case2 m hm ih =>
    by_cases hn : n < 16
    · have hlong := one_lt_length_hexDigits hm
      rw [hlength, hexDigits, if_pos hn, List.length_singleton] at hlong
      omega
    · rw [hexDigits, if_neg hm, hexDigits.eq_def n, if_neg hn] at h
      obtain ⟨hfront, hlast⟩ := List.append_inj' h rfl
      have hquotient := ih hfront (congrArg List.length hfront)
      have hremainder := hexDigit_inj _ (Nat.mod_lt m (by decide)) _ (Nat.mod_lt n (by decide))
        (List.singleton_inj.1 hlast)
      omega

/-! ## One character -/

/-- The characters that are written by a backslash and a letter. -/
def escapes : List (Char × Char) :=
  [('\x00', '0'), ('\t', 't'), ('\r', 'r'), ('\n', 'n'), ('\\', '\\'), ('"', '"')]

/-- The written forms of a character. -/
inductive Written (c : Char) : List Char → Prop
  | escaped {letter : Char} (h : (c, letter) ∈ escapes) : Written c ['\\', letter]
  | coded : Written c ('\\' :: 'u' :: '\x7b' :: (hexDigits c.toNat ++ ['\x7d']))
  | shown (hslash : c ≠ '\\') (hline : c ≠ '\n') : Written c [c]

theorem written_encodeChar (c : Char) : Written c (encodeChar c) := by
  have hescaped : ∀ escape ∈ escapes, encodeChar escape.1 = ['\\', escape.2] := by decide
  by_cases hmem : c ∈ escapes.map (·.1)
  · obtain ⟨⟨_, letter⟩, hletter, rfl⟩ := List.mem_map.1 hmem
    exact hescaped _ hletter ▸ .escaped hletter
  · simp only [escapes, List.map_cons, List.map_nil, List.mem_cons, List.not_mem_nil, or_false,
      not_or] at hmem
    obtain ⟨hnull, htab, hreturn, hline, hslash, hquote⟩ := hmem
    rw [encodeChar, if_neg hnull, if_neg htab, if_neg hreturn, if_neg hline, if_neg hslash,
      if_neg hquote]
    split
    · exact .coded
    · exact .shown hslash hline

namespace Written

variable {a b c : Char} {as bs us vs : List Char}

theorem ne_nil (h : Written c as) : as ≠ [] := by
  cases h <;> simp

theorem newline_notMem (h : Written c as) : '\n' ∉ as := by
  cases h with
  | @escaped letter h =>
    have hletter : ∀ escape ∈ escapes, '\n' ∉ ['\\', escape.2] := by decide
    exact hletter _ h
  | coded =>
    have hdigits : '\n' ∉ hexDigits c.toNat := fun h => (ne_of_mem_hexDigits h).2 rfl
    simp [hdigits]
  | shown _ hline => simpa using Ne.symm hline

/-- The letter behind a backslash tells what is written. -/
theorem escaped_inj {letter letter' : Char} (h : (a, letter) ∈ escapes)
    (h' : (b, letter') ∈ escapes) (hletter : letter = letter') : a = b := by
  have htable : ∀ x ∈ escapes, ∀ y ∈ escapes, x.2 = y.2 → x.1 = y.1 := by decide
  exact htable _ h _ h' hletter

theorem escaped_ne {letter : Char} (h : (a, letter) ∈ escapes) : letter ≠ 'u' := by
  have htable : ∀ x ∈ escapes, x.2 ≠ 'u' := by decide
  exact htable _ h

/-- No written form is the start of another one. -/
theorem append_inj (ha : Written a as) (hb : Written b bs) (h : as ++ us = bs ++ vs) :
    a = b ∧ us = vs := by
  cases ha with
  | escaped ha =>
    cases hb with
    | escaped hb =>
      simp only [List.cons_append, List.nil_append, List.cons.injEq, true_and] at h
      exact ⟨escaped_inj ha hb h.1, h.2⟩
    | coded => exact absurd (List.cons.inj (List.cons.inj h).2).1 (escaped_ne ha)
    | shown hslash _ => exact absurd (List.cons.inj h).1.symm hslash
  | coded =>
    cases hb with
    | escaped hb => exact absurd (List.cons.inj (List.cons.inj h).2).1.symm (escaped_ne hb)
    | coded =>
      have hbrace (n : Nat) : '\x7d' ∉ hexDigits n := fun h => (ne_of_mem_hexDigits h).1 rfl
      simp only [List.cons_append, List.append_assoc, List.nil_append, List.cons.injEq,
        true_and] at h
      obtain ⟨hdigits, hrest⟩ := append_cons_inj (hbrace _) (hbrace _) h
      exact ⟨Char.toNat_inj.1 (hexDigits_injective hdigits), hrest⟩
    | shown hslash _ => exact absurd (List.cons.inj h).1.symm hslash
  | shown hslash _ =>
    cases hb with
    | escaped _ => exact absurd (List.cons.inj h).1 hslash
    | coded => exact absurd (List.cons.inj h).1 hslash
    | shown _ _ => exact List.cons.inj h

end Written

/-! ## Whole texts -/

theorem flatMap_encodeChar_injective {cs ds : List Char}
    (h : cs.flatMap encodeChar = ds.flatMap encodeChar) : cs = ds := by
  induction cs generalizing ds with
  | nil =>
    cases ds with
    | nil => rfl
    | cons d ds =>
      exact absurd (List.append_eq_nil_iff.1 h.symm).1 (written_encodeChar d).ne_nil
  | cons c cs ih =>
    cases ds with
    | nil => exact absurd (List.append_eq_nil_iff.1 h).1 (written_encodeChar c).ne_nil
    | cons d ds =>
      obtain ⟨rfl, hrest⟩ := (written_encodeChar c).append_inj (written_encodeChar d) h
      rw [ih hrest]

theorem toList_encode (text : String) :
    (encode text).toList = '"' :: text.toList.flatMap encodeChar ++ ['"'] :=
  String.toList_ofList

/-- A quoted text is that of one text only. -/
theorem encode_injective {s t : String} (h : encode s = encode t) : s = t := by
  have hchars := congrArg String.toList h
  rw [toList_encode, toList_encode] at hchars
  have hinside := List.append_cancel_right hchars
  exact String.toList_inj.1 (flatMap_encodeChar_injective (List.cons.inj hinside).2)

/-- A quoted text stays on its line. -/
theorem newline_notMem_encode (text : String) : '\n' ∉ (encode text).toList := by
  have hinside : '\n' ∉ text.toList.flatMap encodeChar := by
    intro h
    obtain ⟨c, _, hc⟩ := List.mem_flatMap.1 h
    exact (written_encodeChar c).newline_notMem hc
  rw [toList_encode]
  simp [hinside]

end Quoted

end Mend.Text
