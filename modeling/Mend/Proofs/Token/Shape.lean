import Mend.Proofs.Token.Scan
import Mend.Reader
import Mend.Tree.Basic

/-!
# Shapes

The shape of a token is what remains of it without its text and its line: its kind, whether it was
supplied, and the shapes of the tokens left out before it. Of a report the kind that is missing
remains, or that something is invalid. Readers and trees have shapes token by token.

A token that does not pass for a reserved word is accepted where its shape is, so grammar positions
only see shapes (`accepts_shape`).
-/

namespace Mend

/-- A fault without the text of a token. -/
def Fault.shape : Fault → Fault
  | .missing kind => .missing kind
  | .invalid _ => .invalid ""

/-- A report without text and line. -/
def Diagnostic.shape (d : Diagnostic) : Diagnostic := ⟨d.fault.shape, 1⟩

mutual

/-- A token without text and line. -/
def Token.shape : Token → Token
  | ⟨kind, _, _, missing, leading, diagnostics⟩ =>
    ⟨kind, "", 1, missing, Token.shapes leading, diagnostics.map Diagnostic.shape⟩

/-- Some tokens without texts and lines. -/
def Token.shapes : List Token → List Token
  | [] => []
  | t :: rest => t.shape :: Token.shapes rest

end

namespace Token

theorem shapes_eq_map (ts : List Token) : shapes ts = ts.map shape := by
  induction ts with
  | nil => rfl
  | cons t rest ih => rw [shapes, ih, List.map_cons]

theorem shape_eq (t : Token) : t.shape =
    ⟨t.kind, "", 1, t.missing, t.invalidLeading.map shape, t.diagnostics.map Diagnostic.shape⟩ := by
  cases t
  rw [shape, shapes_eq_map]

@[simp] theorem kind_shape (t : Token) : t.shape.kind = t.kind := by rw [shape_eq]

@[simp] theorem line_shape (t : Token) : t.shape.line = 1 := by rw [shape_eq]

@[simp] theorem text_shape (t : Token) : t.shape.text = "" := by rw [shape_eq]

@[simp] theorem missing_shape (t : Token) : t.shape.missing = t.missing := by rw [shape_eq]

@[simp] theorem invalidLeading_shape (t : Token) :
    t.shape.invalidLeading = t.invalidLeading.map shape := by rw [shape_eq]

@[simp] theorem shape_plain (kind : Kind) (text : String) (line : UInt32) :
    (plain kind text line).shape = plain kind "" 1 := by
  rw [shape_eq]
  rfl

@[simp] theorem shape_eof (line : UInt32) : (eof line).shape = eof 1 := shape_plain ..

theorem shape_precededBy (t : Token) (leftOut : List Token) :
    (t.precededBy leftOut).shape = t.shape.precededBy (leftOut.map shape) := by
  rw [shape_eq, shape_eq t]
  simp only [precededBy, List.map_append]

theorem shape_report (t : Token) (d : Diagnostic) :
    (t.report d).shape = t.shape.report d.shape := by
  rw [shape_eq, shape_eq t]
  simp only [report, List.map_append, List.map_cons, List.map_nil]

theorem shape_supplied (kind : Kind) (line : UInt32) (d : Diagnostic) :
    (supplied kind line d).shape = supplied kind 1 d.shape := by
  rw [shape_eq]
  rfl

/-- Shapes are spelled like nothing. -/
theorem unreserved_shape (t : Token) : t.shape.Unreserved := by
  intro _
  rw [text_shape]
  decide

/-- Of a token as it stands in the input the kind remains. -/
theorem IsPlain.shape_eq {t : Token} (h : t.IsPlain) : t.shape = plain t.kind "" 1 := by
  rw [Token.shape_eq, h.present, h.leading, h.diagnostics]
  rfl

theorem map_shape_eq_of_kinds {ts us : List Token} (hts : ∀ t ∈ ts, t.IsPlain)
    (hus : ∀ u ∈ us, u.IsPlain) (h : ts.map (·.kind) = us.map (·.kind)) :
    ts.map shape = us.map shape := by
  have hkinds {vs : List Token} (hvs : ∀ v ∈ vs, v.IsPlain) :
      vs.map shape = (vs.map (·.kind)).map (plain · "" 1) := by
    rw [List.map_map]
    exact List.map_congr_left fun v hv => (hvs v hv).shape_eq
  rw [hkinds hts, hkinds hus, h]

end Token

namespace Position

theorem accepts_eq_wants {t : Token} (ht : t.Unreserved) (p : Position) :
    p.accepts t = p.wants t.kind := by
  rw [Bool.eq_iff_iff]
  exact ⟨wants_of_accepts ht, accepts_of_wants⟩

/-- A position accepts a token that is no reserved word in disguise by its shape. -/
theorem accepts_shape {t : Token} (ht : t.Unreserved) (p : Position) :
    p.accepts t.shape = p.accepts t := by
  rw [accepts_eq_wants ht, accepts_eq_wants t.unreserved_shape, Token.kind_shape]

end Position

/-! ## Readers -/

namespace Reader

/-- A reader of shapes. -/
def shape (r : Reader) : Reader :=
  ⟨r.consumed.map Token.shape, r.ahead.map Token.shape, r.last.shape⟩

theorem shape_ofTokens (tokens : List Token) :
    (ofTokens tokens).shape = ofTokens (tokens.map Token.shape) := by
  unfold ofTokens
  rw [List.getLast?_map]
  cases tokens.getLast? with
  | none => simp [shape]
  | some t =>
    simp only [Option.map_some, Token.kind_shape]
    split
    · simp [shape, List.map_dropLast]
    · simp [shape]

@[simp] theorem peekN_shape (r : Reader) (k : Nat) : r.shape.peekN k = (r.peekN k).shape := by
  simp only [peekN, shape, List.getD_eq_getElem?_getD, List.getElem?_map]
  cases r.ahead[k - 1]? <;> rfl

@[simp] theorem peek_shape (r : Reader) : r.shape.peek = r.peek.shape := r.peekN_shape 1

@[simp] theorem index_shape (r : Reader) : r.shape.index = r.index := List.length_map _

@[simp] theorem previous?_shape (r : Reader) : r.shape.previous? = r.previous?.map Token.shape :=
  List.head?_map

theorem read_shape (r : Reader) : r.shape.read = (r.read.1.shape, r.read.2.shape) := by
  obtain ⟨consumed, ahead, last⟩ := r
  cases ahead <;> rfl

@[simp] theorem documentationAt_shape (r : Reader) (k : Nat) :
    r.shape.documentationAt k = r.documentationAt k := by
  simp only [documentationAt, shape, ← List.map_drop, List.takeWhile_map, List.length_map]
  congr 2
  funext t
  simp

@[simp] theorem skipDocumentation_shape (r : Reader) (k : Nat) :
    r.shape.skipDocumentation k = r.skipDocumentation k := by
  simp only [skipDocumentation, documentationAt_shape]

end Reader

/-! ## Trees -/

mutual

/-- A tree of shapes. -/
def Tree.shape : Tree → Tree
  | .token t => .token t.shape
  | .node kind children => .node kind (shapes children)

/-- Some trees of shapes. -/
def Tree.shapes : List Tree → List Tree
  | [] => []
  | tree :: rest => tree.shape :: shapes rest

end

namespace Tree

theorem shapes_eq_map (trees : List Tree) : shapes trees = trees.map shape := by
  induction trees with
  | nil => rfl
  | cons tree rest ih => rw [shapes, ih, List.map_cons]

theorem shape_node (kind : NodeKind) (children : List Tree) :
    (node kind children).shape = node kind (children.map shape) := by
  rw [shape, shapes_eq_map]

mutual

theorem tokens_shape : ∀ tree : Tree, tree.shape.tokens = tree.tokens.map Token.shape
  | .token _ => rfl
  | .node _ children => by rw [shape, tokens, tokens, tokensOf_shapes children]

theorem tokensOf_shapes : ∀ trees : List Tree,
    tokensOf (shapes trees) = (tokensOf trees).map Token.shape
  | [] => rfl
  | tree :: rest => by
    rw [shapes, tokensOf, tokensOf, tokens_shape tree, tokensOf_shapes rest, List.map_append]

end

end Tree

end Mend
