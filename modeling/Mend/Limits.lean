/-!
# Limits of repair

How far repair looks ahead, and how often it may be asked at one token before it takes a surer
way. Different limits find different repairs.
-/

namespace Mend

/-- The limits that repair keeps. -/
structure Limits where
  /-- How many steps a search may count before it stops. -/
  lookahead : Nat
  /-- How many attempts at one token may complete the construct at hand. -/
  completion : Nat
  /-- How many attempts at one token may search. -/
  resolution : Nat
  deriving DecidableEq, Repr, Inhabited

/-- The limits used when none are given. -/
def Limits.standard : Limits := ⟨4, 15, 7⟩

/-- The largest value that a limit may have: what 64 bits hold. -/
def Limits.greatest : Nat := 18446744073709551615

end Mend
