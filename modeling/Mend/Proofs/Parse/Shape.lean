import Mend.Proofs.Machine.Primed
import Mend.Proofs.Parse.Conservation
import Mend.Proofs.Parse.Safety
import Mend.Proofs.Repair.Shape

/-!
# Parsing sees kinds alone

Over the shapes of some tokens a parse does step by step what it does over the tokens, up to shapes.
So two inputs of the same kinds, whose shapes are the same, are parsed to trees of the same shape, or
repair gives up over both of them for the same reason. Neither the spelling of names and literals nor
the lines that tokens are on decide which tokens are supplied and which are left out.
-/

namespace Mend

namespace Machine

variable {m : Machine} {plan : Plan} {p b : Position}

/-- A machine over shapes. -/
def shape (m : Machine) : Machine :=
  ⟨m.session.shape, m.leftOut.map Token.shape, m.supplied.map Token.shape,
    m.children.map Tree.shape, m.outer.map (·.map Tree.shape)⟩

@[simp] theorem next_shape (m : Machine) : m.shape.next = m.next.shape := by
  unfold next
  cases hsupplied : m.supplied <;> simp [shape, hsupplied, Session.shape]

/-! ## Tokens and nodes -/

theorem take_shape (m : Machine) : m.shape.take = m.take.shape := by
  unfold take
  cases hsupplied : m.supplied with
  | some t => simp [shape, hsupplied, Tree.shape, Token.shape_precededBy]
  | none =>
    simp [shape, hsupplied, Session.shape, Tree.shape, Token.shape_precededBy, Reader.read_shape]

theorem shape_reject (t : Token) : (reject t).shape = reject t.shape := by
  unfold reject
  rw [Token.shape_report, Token.text_shape, Token.line_shape]
  rfl

theorem drain_shape (m : Machine) : m.shape.drain = m.drain.shape := by
  have hpassed : (m.session.reader.ahead.map Token.shape).takeWhile (·.kind != .eof) =
      (m.session.reader.ahead.takeWhile (·.kind != .eof)).map Token.shape := by
    rw [List.takeWhile_map]
    simp [Function.comp_def]
  simp [drain, drainReader, shape, Session.shape, Reader.shape, hpassed, List.map_drop,
    shape_reject]

theorem finish_shape (m : Machine) (kind : NodeKind) :
    m.shape.finish kind = (m.finish kind).shape := by
  simp only [finish, shape, List.map_cons, Tree.shape_node, List.map_reverse, List.map_drop]
  cases m.outer <;> rfl

theorem adopt_shape (m : Machine) : m.shape.adopt = m.adopt.shape := by
  simp only [adopt, shape, List.map_cons, List.map_take, List.map_drop]

theorem tree_shape (m : Machine) : m.shape.tree = m.tree.shape := by
  rw [tree, tree, Tree.shape_node, List.map_reverse]
  rfl

/-! ## Repairs -/

theorem repair_shape (hsupply : m.session.supply = Token.missingOf)
    (h : ∀ k, (m.session.reader.peekN k).Unreserved) (p : Position) :
    m.shape.repair p = (m.repair p).map fun result => (result.1.shape, result.2.shape) := by
  have hpeek : m.shape.session.reader.peek = m.session.reader.peek.shape :=
    m.session.reader.peek_shape
  have hcompletes : completes m.session.reader.peek.shape m.shape.session.stack =
      completes m.session.reader.peek m.session.stack := by
    rw [completes, completes, Token.kind_shape]
    rfl
  have hrecover := @Session.recover_shape m.session p m.session.reader.peek
    (completes m.session.reader.peek m.session.stack) hsupply h
  unfold repair
  dsimp only
  rw [hpeek, hcompletes, show m.shape.session = m.session.shape from rfl, hrecover]
  obtain ⟨result, session⟩ := m.session.recover p m.session.reader.peek
    (completes m.session.reader.peek m.session.stack)
  cases result with
  | error _ => rfl
  | ok repair =>
    simp only [Except.map, Repair.action_shape]
    cases repair.action with
    | keep => rfl
    | insert => rfl
    | remove =>
      cases hremoved : repair.removed <;>
        simp [Repair.shape, shape, hremoved, shape_reject]

@[simp] theorem steer_shape (m : Machine) (b target : Position) :
    m.shape.steer b target = m.steer b target := by
  unfold steer
  rw [next_shape, Token.kind_shape]

@[simp] theorem choiceOf_shape (m : Machine) (b : Position) (repair : Repair) :
    m.shape.choiceOf b repair.shape = m.choiceOf b repair := by
  unfold choiceOf
  rw [Repair.action_shape, Repair.position_shape, steer_shape]
  rfl

/-! ## Steps -/

/-- Where a step leads to over shapes. -/
def shapeStep (result : Machine × Plan) : Machine × Plan := (result.1.shape, result.2)

theorem expect_shape (hsupply : m.session.supply = Token.missingOf)
    (h : ∀ k, (m.session.reader.peekN k).Unreserved) (hnext : m.next.Unreserved) :
    m.shape.expect p plan = (m.expect p plan).map shapeStep := by
  unfold expect
  rw [next_shape, p.accepts_shape hnext]
  split
  · rw [take_shape]
    rfl
  · refine Except.bind_eq_map (repair_shape hsupply h p) fun ⟨repair, n⟩ => ?_
    dsimp only
    rw [Repair.action_shape, take_shape]
    split <;> rfl

theorem choose_shape (hsupply : m.session.supply = Token.missingOf)
    (h : ∀ k, (m.session.reader.peekN k).Unreserved) :
    m.shape.choose b plan = (m.choose b plan).map shapeStep := by
  unfold choose
  rw [next_shape, Token.kind_shape]
  split
  · rfl
  · refine Except.bind_eq_map (repair_shape hsupply h b) fun ⟨repair, n⟩ => ?_
    dsimp only
    rw [choiceOf_shape]
    cases n.choiceOf b repair <;> rfl

/-- The machine decides by the kind of the next token. -/
theorem decision_shape (m : Machine) (i : Instruction) : m.shape.decision i = m.decision i := by
  cases i with
  | optionalSuffix | postfixes | operators | otherBranch =>
    simp only [decision, optionalSuffix, postfixes, operators, otherBranch, next_shape,
      Token.kind_shape]
  | _ => rfl

/-- Over shapes a machine does step by step what it does over the tokens. -/
theorem step_shape {i : Instruction} (h : Primed m (i :: plan)) :
    m.shape.step i plan = (m.step i plan).map shapeStep := by
  cases i with
  | expect p => exact expect_shape h.supply h.peekN_unreserved h.next_unreserved
  | choose b => exact choose_shape h.supply h.peekN_unreserved
  | leave | switch =>
    unfold step
    rw [show m.shape.session.stack = m.session.stack from rfl]
    cases m.session.stack <;> rfl
  | take | drain | adopt | finish =>
    simp only [step, take_shape, drain_shape, adopt_shape, finish_shape]
    rfl
  | optionalSuffix | postfixes | operators | otherBranch =>
    rw [step_decision rfl, step_decision rfl, decision_shape]
    rfl
  | enter | begin => rfl

/-! ## Runs -/

/-- The result of a run, over shapes. -/
def Result.shape : Result → Result
  | .done m => .done m.shape
  | .failed error => .failed error
  | .unfinished => .unfinished

theorem run_shape (fuel : Nat) (h : Primed m plan) :
    run fuel m.shape plan = (run fuel m plan).shape := by
  -- The induction needs a primed machine, in which no name passes for a reserved word.
  induction fuel generalizing m plan with
  | zero => cases plan <;> rfl
  | succ fuel ih =>
    cases plan with
    | nil => rfl
    | cons i plan =>
      rw [run, run, step_shape h]
      cases hstep : m.step i plan with
      | error _ => rfl
      | ok result => exact ih (h.next_step hstep)

theorem start_shape (tokens : List Token) (limits : Limits) :
    (start tokens limits).shape = start (tokens.map Token.shape) limits := by
  simp only [start, ← Reader.shape_ofTokens]
  rfl

end Machine

namespace Tree

variable {tokens tokens' : List Token} {limits : Limits}

/-- The parse of shapes is the shape of the parse. -/
theorem ofTokens_shape (hwords : ∀ t ∈ tokens, t.Unreserved) :
    ofTokens (tokens.map Token.shape) limits = (ofTokens tokens limits).map shape := by
  have hbound : Machine.stepBound (tokens.map Token.shape) limits =
      Machine.stepBound tokens limits := by
    rw [Machine.stepBound, Machine.stepBound, List.length_map]
  unfold ofTokens
  rw [hbound, ← Machine.start_shape, Machine.run_shape _ (Machine.primed_start hwords limits)]
  cases Machine.run (Machine.stepBound tokens limits) (.start tokens limits) Machine.program with
  | done m => exact congrArg Except.ok m.tree_shape
  | failed _ => rfl
  | unfinished => rfl

/-- What repair did to the tokens of a tree: of each the kind, whether it was supplied, and the
kinds of those left out before it. -/
def repairs (tree : Tree) : List (Kind × Bool × List Kind) :=
  tree.tokens.map fun t => (t.kind, t.missing, t.invalidLeading.map (·.kind))

theorem repairs_shape (tree : Tree) : tree.shape.repairs = tree.repairs := by
  rw [repairs, repairs, tokens_shape, List.map_map]
  refine List.map_congr_left fun t _ => ?_
  simp [Function.comp_def]

/-- Two parses end alike: in trees of one shape with the same repairs, or in the same breakdown. -/
inductive Alike : Except Abort Tree → Except Abort Tree → Prop
  | parsed {tree tree' : Tree} (hshape : tree.shape = tree'.shape)
      (hrepairs : tree.repairs = tree'.repairs) : Alike (.ok tree) (.ok tree')
  | broken (error : Breakdown) : Alike (.error (.breakdown error)) (.error (.breakdown error))

/-- Inputs of one shape are parsed alike. -/
theorem alike_of_shapes (hwords : ∀ t ∈ tokens, t.Unreserved) (hwords' : ∀ t ∈ tokens', t.Unreserved)
    (h : tokens.map Token.shape = tokens'.map Token.shape) :
    Alike (ofTokens tokens limits) (ofTokens tokens' limits) := by
  have hparse : (ofTokens tokens limits).map shape = (ofTokens tokens' limits).map shape := by
    rw [← ofTokens_shape hwords, h, ofTokens_shape hwords']
  have hparses := parses_ofTokens tokens limits
  have hparses' := parses_ofTokens tokens' limits
  rcases hparses with ⟨tree, htree⟩ | ⟨p, index, count, hfailed⟩
  · rcases hparses' with ⟨tree', htree'⟩ | ⟨p', index', count', hfailed'⟩
    · rw [htree, htree'] at hparse ⊢
      have hshape : tree.shape = tree'.shape := Except.ok.inj hparse
      refine .parsed hshape ?_
      rw [← repairs_shape, hshape, repairs_shape]
    · rw [htree, hfailed'] at hparse
      cases hparse
  · rcases hparses' with ⟨tree', htree'⟩ | ⟨p', index', count', hfailed'⟩
    · rw [hfailed, htree'] at hparse
      cases hparse
    · rw [hfailed, hfailed'] at hparse ⊢
      cases hparse
      exact .broken _

end Tree

/-- Parsing sees kinds alone. If the tokens of two inputs, none of which is a name spelled like a
reserved word, have the same kinds, then both are parsed to trees that differ in texts and lines
only, with the same tokens supplied and left out, or repair gives up over both for the same
reason. -/
theorem parsing_sees_kinds_alone (limits : Limits) :
    (∀ tokens tokens' : List Token, (∀ t ∈ tokens, t.IsPlain ∧ t.Unreserved) →
      (∀ t ∈ tokens', t.IsPlain ∧ t.Unreserved) →
      tokens.map (·.kind) = tokens'.map (·.kind) →
      Tree.Alike (Tree.ofTokens tokens limits) (Tree.ofTokens tokens' limits)) ∧
    ∀ text text' tokens tokens', Token.scan text = .ok tokens → Token.scan text' = .ok tokens' →
      tokens.map (·.kind) = tokens'.map (·.kind) →
      Tree.Alike (Tree.ofText text limits) (Tree.ofText text' limits) := by
  have hlists (tokens tokens' : List Token) (h : ∀ t ∈ tokens, t.IsPlain ∧ t.Unreserved)
      (h' : ∀ t ∈ tokens', t.IsPlain ∧ t.Unreserved)
      (hkinds : tokens.map (·.kind) = tokens'.map (·.kind)) :
      Tree.Alike (Tree.ofTokens tokens limits) (Tree.ofTokens tokens' limits) :=
    Tree.alike_of_shapes (fun t ht => (h t ht).2) (fun t ht => (h' t ht).2)
      (Token.map_shape_eq_of_kinds (fun t ht => (h t ht).1) (fun t ht => (h' t ht).1) hkinds)
  refine ⟨hlists, fun text text' tokens tokens' hscan hscan' hkinds => ?_⟩
  have hplain {text : String} {tokens : List Token} (hscan : Token.scan text = .ok tokens) :
      ∀ t ∈ tokens, t.IsPlain ∧ t.Unreserved := fun t ht =>
    ⟨(Token.isInput_of_scan hscan).isPlain t ht, Token.unreserved_of_scan hscan t ht⟩
  rw [Tree.ofText, Tree.ofText, hscan, hscan']
  exact hlists tokens tokens' (hplain hscan) (hplain hscan') hkinds

/-- A constant without a value needs the same repairs under another name and in other lines, and a
declaration that breaks off needs the same repairs behind a blank line. -/
theorem renamed_constant_parsed_alike :
    Tree.Alike
      (Tree.ofTokens [.plain .constKeyword "const" 1, .plain .identifier "x" 1,
        .plain .semicolon ";" 1, .eof 1] .standard)
      (Tree.ofTokens [.plain .constKeyword "const" 3, .plain .identifier "limit" 4,
        .plain .semicolon ";" 6, .eof 7] .standard) ∧
    Tree.Alike (Tree.ofText "const" .standard) (Tree.ofText "\nconst" .standard) := by
  have hwords {name : String} (hname : Kind.keyword? name = none) (a b c d : UInt32) :
      ∀ t ∈ [Token.plain .constKeyword "const" a, .plain .identifier name b,
        .plain .semicolon ";" c, .eof d], t.IsPlain ∧ t.Unreserved := by
    simp [Token.eof, Token.isPlain_plain, Token.Unreserved, Token.kind_plain]
    exact hname
  have hscan' : Token.scan "\nconst" = .ok [.plain .constKeyword "const" 2, .eof 2] := by
    have hrest : (Lexer.Cursor.start "\nconst".toList).rest = '\n' :: "const".toList := rfl
    have hblank : Lexer.step '\n' "const".toList 1 [] =
        .ok (none, ⟨"const".toList, 2, []⟩) := rfl
    rw [Token.scan, Lexer.scan_step hrest]
    simp only [Lexer.Cursor.start, hblank]
    rw [Option.toList_none, List.nil_append, Lexer.scan_const]
    rfl
  exact ⟨(parsing_sees_kinds_alone .standard).1 _ _ (hwords rfl 1 1 1 1) (hwords rfl 3 4 6 7) rfl,
    (parsing_sees_kinds_alone .standard).2 _ _ _ _ Token.scan_const hscan' rfl⟩

end Mend
