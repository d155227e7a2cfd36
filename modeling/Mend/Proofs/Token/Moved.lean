import Mend.Proofs.Token.Documentation
import Mend.Proofs.Token.Pieces

/-!
# Tokens on other lines

What the scanner does depends on no line number: with other ones in its state it finds the same tokens
with other ones. Two scans that read the same lexemes are compared so, by what a function of the lines
makes of the one and the other.
-/

namespace Mend.Lexer

/-- No line is told from another. -/
def anyLine : UInt32 → UInt32 := fun _ => 0

/-- A token on another line. -/
def moved (f : UInt32 → UInt32) (t : Token) : Token := { t with line := f t.line }

/-- What the scanner is inside of, on another line. -/
def Mode.moved (f : UInt32 → UInt32) : Mode → Mode
  | .template line => .template (f line)
  | .interpolation depth => .interpolation depth

variable {f : UInt32 → UInt32}

@[simp] theorem inText_moved (modes : List Mode) : inText (modes.map (Mode.moved f)) = inText modes := by
  match modes with
  | [] => rfl
  | .template _ :: _ => rfl
  | .interpolation _ :: _ => rfl

theorem tokenOf_moved (line : UInt32) (found : Option (Kind × List Char)) :
    tokenOf (f line) found = (tokenOf line found).map (moved f) := by
  cases found <;> rfl

theorem modesAfter_moved (line : UInt32) (kind : Kind) (modes : List Mode) :
    modesAfter (f line) kind (modes.map (Mode.moved f)) =
      (modesAfter line kind modes).map (Mode.moved f) := by
  by_cases hbraces : kind = .openBrace ∨ kind = .closeBrace
  · rcases hbraces with rfl | rfl <;> rcases modes with - | ⟨- | (- | depth), outer⟩ <;> rfl
  · obtain ⟨hopen, hclose⟩ := not_or.1 hbraces
    by_cases hback : kind = .backtick
    · rw [hback]
      rfl
    · rw [modesAfter_of_ne hback hopen hclose, modesAfter_of_ne hback hopen hclose]

theorem modesBehind_moved (modes : List Mode) (t : Token) :
    modesBehind (modes.map (Mode.moved f)) (moved f t) = (modesBehind modes t).map (Mode.moved f) := by
  cases htext : inText modes with
  | false =>
    rw [modesBehind_of_code htext, modesBehind_of_code (by rwa [inText_moved])]
    exact modesAfter_moved ..
  | true =>
    unfold inText at htext
    split at htext
    · simp only [List.map_cons, Mode.moved, modesBehind, moved]
      split <;> simp_all [Mode.moved]
    · cases htext

/-- What is alike but for the lines stays so behind a token. -/
theorem modesBehind_alike {modes modes' : List Mode} {t t' : Token}
    (hmodes : modes'.map (Mode.moved f) = modes.map (Mode.moved f)) (ht : moved f t' = moved f t) :
    (modesBehind modes' t').map (Mode.moved f) = (modesBehind modes t).map (Mode.moved f) := by
  rw [← modesBehind_moved, hmodes, ht, modesBehind_moved]

theorem inText_alike {modes modes' : List Mode}
    (hmodes : modes'.map (Mode.moved f) = modes.map (Mode.moved f)) :
    inText modes' = inText modes := by
  rw [← inText_moved modes', hmodes, inText_moved]

theorem joinDocumentation_moved (tokens : List Token) :
    joinDocumentation (tokens.map (moved f)) = (joinDocumentation tokens).map (moved f) := by
  induction tokens with
  | nil => rfl
  | cons t rest ih =>
    rw [List.map_cons, joinDocumentation_cons, joinDocumentation_cons, ih]
    cases joinDocumentation rest with
    | nil => rfl
    | cons next more =>
      rw [List.map_cons, attach, attach, apply_ite (List.map (moved f))]
      rfl

end Mend.Lexer
