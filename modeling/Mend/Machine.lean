import Mend.Plan.Continuation
import Mend.Repair.Session
import Mend.Tree.Basic

/-!
# The parsing machine

The machine does the instructions of a plan one after the other. Its state is the session with
the reader and the stack of productions, the tokens left out since the last one that was taken,
the token supplied by the last repair if it has not been taken yet, and the tree so far: the
children of the node at hand and of every node around it.

An instruction that needs a token which is not there asks for a repair. A repair that leaves a
token out is followed by another try; every other one lets the machine go on. So each step either
ends an instruction or leaves a token out.
-/

namespace Mend

/-- The state of a parse. -/
structure Machine where
  session : Session
  /-- Tokens left out, waiting for the next token that is taken. -/
  leftOut : List Token
  /-- A token supplied and not taken yet. -/
  supplied : Option Token
  /-- The children of the node at hand, most recent first. -/
  children : List Tree
  /-- The children of the nodes around it, innermost first. -/
  outer : List (List Tree)

namespace Machine

/-- A machine at the start of some tokens. -/
def start (tokens : List Token) (limits : Limits) : Machine :=
  ⟨.start (.ofTokens tokens) limits, [], none, [], []⟩

/-! ## Tokens -/

/-- The token that will be taken next. -/
def next (m : Machine) : Token := m.supplied.getD m.session.reader.peek

/-- Take the next token, with the tokens left out before it, as a child of the node at hand. -/
def take (m : Machine) : Machine :=
  match m.supplied with
  | some t =>
    { m with
      supplied := none, leftOut := [],
      children := .token (t.precededBy m.leftOut) :: m.children }
  | none =>
    let (t, reader) := m.session.reader.read
    { m with
      session := { m.session with reader := reader }, leftOut := [],
      children := .token (t.precededBy m.leftOut) :: m.children }

/-- A token left out, with the report of it. -/
def reject (t : Token) : Token := t.report (.invalid t.text t.line)

/-- Leave out every token before the end of the input. -/
def drainReader (reader : Reader) : List Token × Reader :=
  let passed := reader.ahead.takeWhile (·.kind != .eof)
  (passed,
    { reader with
      consumed := passed.reverse ++ reader.consumed, ahead := reader.ahead.drop passed.length })

/-- Leave out every token before the end of the input, and forget a supplied one. -/
def drain (m : Machine) : Machine :=
  let (passed, reader) := drainReader m.session.reader
  { m with
    session := { m.session with reader := reader }, supplied := none,
    leftOut := m.leftOut ++ passed.map reject }

/-! ## Repairs -/

/-- The productions that a closing brace ends. -/
def braced : List Position :=
  [.block, .recordTypeDesc, .objectTypeDesc, .mappingConstructor, .matchStmt,
    .mappingMatchPattern, .forkStmt, .interpolation]

/-- Whether a repair at a token is to complete the construct at hand: a closing brace ends
something only while a brace is open. -/
def completes (t : Token) (stack : Stack) : Bool :=
  t.kind == .closeBrace && stack.any braced.contains

/-- Ask for a repair at a position and record what it did to the tokens. -/
def repair (m : Machine) (position : Position) : Except Breakdown (Repair × Machine) :=
  let t := m.session.reader.peek
  match m.session.recover position t (completes t m.session.stack) with
  | (.error error, _) => .error error
  | (.ok repair, session) =>
    let m := { m with session := session, supplied := none }
    match repair.action with
    | .remove => .ok (repair, { m with leftOut := m.leftOut ++ repair.removed.toList.map reject })
    | .insert => .ok (repair, { m with supplied := repair.recovered })
    | .keep => .ok (repair, m)

/-! ## The tree -/

/-- Start a node without children. -/
def begin (m : Machine) : Machine :=
  { m with children := [], outer := m.children :: m.outer }

/-- Start a node whose first child is the last child of the node at hand. -/
def adopt (m : Machine) : Machine :=
  { m with children := m.children.take 1, outer := m.children.drop 1 :: m.outer }

/-- Complete the node at hand and make it a child of the one around it. -/
def finish (m : Machine) (kind : NodeKind) : Machine :=
  { m with
    children := .node kind m.children.reverse :: m.outer.headD [], outer := m.outer.drop 1 }

/-- The tree of a machine whose plan is done. -/
def tree (m : Machine) : Tree := .node .compUnit m.children.reverse

/-! ## Choices -/

/-- How to go on at a branch point when the next token is let stand. One of its own paths is
followed; anything deeper is left to the token as it stands. -/
def steer (m : Machine) (branch target : Position) : Choice :=
  if branch.paths.contains target then
    if target.keyword?.isSome || target.tokenClass?.isSome then .kind target.expectedKind
    else .path target
  else .kind m.next.kind

/-- The choice that a repair at a branch point comes to; none if a token was left out, so that
the choice is still to be made. -/
def choiceOf (m : Machine) (branch : Position) (repair : Repair) : Option Choice :=
  match repair.action with
  | .remove => none
  | .insert => some (.kind repair.resolved)
  | .keep => some (m.steer branch repair.position)

/-! ## Steps -/

/-- One try to take the token that a position wants; the plan is what follows. -/
def expect (m : Machine) (position : Position) (plan : Plan) :
    Except Breakdown (Machine × Plan) :=
  if position.accepts m.next then .ok (m.take, plan)
  else do
    let (repair, m) ← m.repair position
    if repair.action = .remove then return (m, .expect position :: plan)
    else return (m.take, plan)

/-- One try to resolve a branch point; the plan is what follows. -/
def choose (m : Machine) (branch : Position) (plan : Plan) : Except Breakdown (Machine × Plan) :=
  if branch.admits m.next.kind then
    .ok (m, Plan.continuation branch (.kind m.next.kind) ++ plan)
  else do
    let (repair, m) ← m.repair branch
    match m.choiceOf branch repair with
    | none => return (m, .choose branch :: plan)
    | some choice => return (m, Plan.continuation branch choice ++ plan)

/-- What follows an operand, given how tightly an operator must bind to go on here. -/
def operators (m : Machine) (tightness : Nat) : Plan :=
  match m.next.kind.precedence? with
  | none => []
  | some precedence =>
    if precedence < tightness then []
    else
      [.adopt, .expect .binaryOperator, .choose .expression, .operators (precedence + 1),
        .finish .binaryExpr, .operators tightness]

/-- What follows an operand directly: the access to a field, or a call. -/
def postfixes (m : Machine) : Plan :=
  match m.next.kind with
  | .dot =>
    [.adopt, .expect .dot, .expect .fieldAccessName, .finish .fieldAccess, .postfixes]
  | .openParen => .adopt :: Plan.argList ++ [.finish .callExpr, .postfixes]
  | _ => []

/-- What follows a type: the mark of an optional one. -/
def optionalSuffix (m : Machine) : Plan :=
  if m.next.kind = .questionMark then [.adopt, .expect .questionMark, .finish .optionalType]
  else []

/-- What follows the body of a conditional. -/
def otherBranch (m : Machine) : Plan :=
  if m.next.kind = .elseKeyword then Plan.elseClause else []

/-- Do one instruction; the plan is what follows it. -/
def step (m : Machine) (instruction : Instruction) (plan : Plan) :
    Except Breakdown (Machine × Plan) :=
  match instruction with
  | .enter production => .ok ({ m with session := m.session.enter production }, plan)
  | .leave => do
    let (_, stack) ← m.session.stack.leave
    return ({ m with session := { m.session with stack := stack } }, plan)
  | .switch production => do
    let stack ← m.session.stack.switch production
    return ({ m with session := { m.session with stack := stack } }, plan)
  | .expect position => m.expect position plan
  | .choose branch => m.choose branch plan
  | .take => .ok (m.take, plan)
  | .drain => .ok (m.drain, plan)
  | .begin => .ok (m.begin, plan)
  | .adopt => .ok (m.adopt, plan)
  | .finish kind => .ok (m.finish kind, plan)
  | .optionalSuffix => .ok (m, m.optionalSuffix ++ plan)
  | .postfixes => .ok (m, m.postfixes ++ plan)
  | .operators tightness => .ok (m, m.operators tightness ++ plan)
  | .otherBranch => .ok (m, m.otherBranch ++ plan)

/-- How a run of the machine can end. -/
inductive Result where
  /-- The plan is done. -/
  | done (machine : Machine)
  /-- The engine failed. -/
  | failed (error : Breakdown)
  /-- The steps were used up. -/
  | unfinished

/-- Follow a plan for at most a number of steps. -/
def run : Nat → Machine → Plan → Result
  | _, m, [] => .done m
  | 0, _, _ :: _ => .unfinished
  | fuel + 1, m, instruction :: plan =>
    match m.step instruction plan with
    | .error error => .failed error
    | .ok (m, plan) => run fuel m plan

/-- The plan for a whole program. -/
def program : Plan := [.enter .compUnit, .choose .topLevelNode]

/-- A number of steps within which every program is parsed: each token, be it taken, supplied or
left out, needs a bounded number of steps, and the limits bound how many are supplied before one
is left out. -/
def stepBound (tokens : List Token) (limits : Limits) : Nat :=
  4096 * (tokens.length + 2) * (max limits.completion limits.resolution + 3)

end Machine

end Mend
