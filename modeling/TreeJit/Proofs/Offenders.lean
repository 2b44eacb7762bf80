import TreeJit.Proofs.Capacity
import TreeJit.Proofs.Grammar

/-! # The node that a refusal is about

A tree is refused because of one of its nodes: the first one in preorder that
offends.  Whether a node offends is a matter of the node and of where it stands,
not of what is below it.

* `Node.sites` — the nodes of a tree in preorder, each with its position.
* `Site.offence` — what is wrong with a node in its position, if anything.
* `Codegen.node_outcome` — compilation ends with the first offence.
-/

namespace TreeJit

/-! ## Positions and offences -/

/-- Where a node stands. -/
inductive Position where
  /-- At the root, or as the body of a loop. -/
  | free
  /-- As an operand of arithmetic or negation, or as the condition of a loop. -/
  | number
  /-- As an operand of a concatenation. -/
  | string
  /-- As the value of an assignment. -/
  | assigned
  deriving DecidableEq

/-- The kinds of value that there is a use for in a position. -/
def Position.takes : Position → List ValueKind
  | .free => [.number, .string, .statement]
  | .number => [.number]
  | .string => [.string]
  | .assigned => [.number, .string]

/-- The kind of value that is asked for when a node does not fit.  In a free position every kind of
value fits. -/
def Position.expected : Position → ValueKind
  | .free => .statement
  | .number => .number
  | .string => .string
  | .assigned => .number

/-- The kinds of value that a node can stand for.  A variable is a number or a string, as needed;
what is never compiled has no value at all. -/
def Node.offers : Node → List ValueKind
  | .number _ | .binary _ _ _ | .neg _ => [.number]
  | .string _ | .concat _ _ => [.string]
  | .var _ => [.number, .string]
  | .assign _ _ | .loop _ _ => [.statement]
  | .compare _ _ _ | .block _ | .print _ | .call _ _ => []

/-- The variable that a node reads or writes itself. -/
def Node.subject? : Node → Option String
  | .var name => some name
  | .assign name _ => some name
  | _ => none

/-- A node in its position. -/
structure Site where
  position : Position
  node : Node

/-- What is wrong with a node where it stands: it is never compiled, it has no value of a kind that
is taken there, or it is about another variable than the bound one. -/
def Site.offence (bound : String) (s : Site) : Option Error :=
  if s.node.offers = [] then some (.unsupported s.node.kind)
  else if ∀ kind ∈ s.node.offers, kind ∉ s.position.takes then
    some (.valueKind s.node.kind s.position.expected)
  else match s.node.subject? with
    | some name => if name = bound then none else some (.unbound name)
    | none => none

mutual

/-- The nodes of a tree from left to right, each before the ones below it. -/
def Node.sites : Position → Node → List Site
  | position, .number value => [⟨position, .number value⟩]
  | position, .string text => [⟨position, .string text⟩]
  | position, .var name => [⟨position, .var name⟩]
  | position, .assign name value => ⟨position, .assign name value⟩ :: value.sites .assigned
  | position, .binary op lhs rhs =>
    ⟨position, .binary op lhs rhs⟩ :: (lhs.sites .number ++ rhs.sites .number)
  | position, .neg operand => ⟨position, .neg operand⟩ :: operand.sites .number
  | position, .concat lhs rhs =>
    ⟨position, .concat lhs rhs⟩ :: (lhs.sites .string ++ rhs.sites .string)
  | position, .loop cond body =>
    ⟨position, .loop cond body⟩ :: (cond.sites .number ++ body.sites .free)
  | position, .compare op lhs rhs =>
    ⟨position, .compare op lhs rhs⟩ :: (lhs.sites .free ++ rhs.sites .free)
  | position, .block items => ⟨position, .block items⟩ :: sitesOfList items
  | position, .print items => ⟨position, .print items⟩ :: sitesOfList items
  | position, .call name args => ⟨position, .call name args⟩ :: sitesOfList args

/-- The nodes of trees that stand side by side. -/
def sitesOfList : List Node → List Site
  | [] => []
  | node :: nodes => node.sites .free ++ sitesOfList nodes

end

/-- The first offence in a tree that stands in a position. -/
def Node.blame (bound : String) (position : Position) (n : Node) : Option Error :=
  (n.sites position).findSome? (Site.offence bound)

/-! ## The first offence, by the root of the tree -/

namespace Node

variable {bound name : String} {lhs rhs cond body value : Node}

/-- A tree is blamed alike in two positions if its root is: what is below the root has positions of
its own. -/
theorem blame_congr {p q : Position} {n : Node}
    (same : Site.offence bound ⟨p, n⟩ = Site.offence bound ⟨q, n⟩) :
    n.blame bound p = n.blame bound q := by
  cases n <;> simp only [blame, sites, List.findSome?_cons, same]

theorem blame_var (position : Position) :
    (var name).blame bound position = if name = bound then none else some (.unbound name) := by
  by_cases h : name = bound <;> cases position <;>
    simp [blame, sites, Site.offence, offers, subject?, Position.takes, h]

theorem blame_binary (op : BinaryOp) : (binary op lhs rhs).blame bound .number =
    (lhs.blame bound .number).or (rhs.blame bound .number) := by
  simp [blame, sites, Site.offence, offers, subject?, Position.takes]

theorem blame_concat : (concat lhs rhs).blame bound .string =
    (lhs.blame bound .string).or (rhs.blame bound .string) := by
  simp [blame, sites, Site.offence, offers, subject?, Position.takes]

theorem blame_loop : (loop cond body).blame bound .free =
    (cond.blame bound .number).or (body.blame bound .free) := by
  simp [blame, sites, Site.offence, offers, subject?, Position.takes]

/-- The name is judged where the assignment stands, before anything is said about the value. -/
theorem blame_assign : (assign name value).blame bound .free =
    ((var name).blame bound .free).or (value.blame bound .assigned) := by
  rw [blame_var]
  by_cases h : name = bound <;>
    simp [blame, sites, Site.offence, offers, subject?, Position.takes, h]

theorem blame_eq_some_iff {root : Node} {e : Error} :
    root.blame bound .free = some e ↔ ∃ before site after,
      root.sites .free = before ++ site :: after ∧
        (∀ earlier ∈ before, earlier.offence bound = none) ∧ site.offence bound = some e := by
  rw [blame, List.findSome?_eq_some_iff]
  constructor
  · rintro ⟨before, site, after, split, offence, innocent⟩
    exact ⟨before, site, after, split, innocent, offence⟩
  · rintro ⟨before, site, after, split, innocent, offence⟩
    exact ⟨before, site, after, split, offence, innocent⟩

end Node

/-! ## Compilation stops at the first offence -/

/-- Success, unless there is a fault. -/
def passUnless : Option Error → Except Error Unit
  | none => .ok ()
  | some e => .error e

theorem passUnless_or (first second : Option Error) :
    passUnless (first.or second) = (passUnless first).bind fun _ => passUnless second := by
  cases first <;> rfl

/-- What cannot fail may follow without a difference to the outcome. -/
theorem Script.outcome_followed {s next : Script Unit} (ends : next.outcome = .ok ()) :
    (s >>= fun _ => next).outcome = s.outcome := by
  rw [outcome_bind, ends]
  cases s.outcome <;> rfl

theorem Script.map_outcome_pure {α : Type} (s : Script Unit) (a : α) :
    (s >>= fun _ => (Pure.pure a : Script α)).outcome.map (fun _ => ()) = s.outcome := by
  rw [outcome_bind]
  cases s.outcome <;> rfl

namespace Codegen

section blocks

variable {lhs rhs operand : Script Unit} {body : Script ValueKind}

theorem binary_outcome (op : BinaryOp) :
    (binary op lhs rhs).outcome = lhs.outcome.bind fun _ => rhs.outcome := by
  simp only [binary, Script.outcome_bind, applyOp_ok]
  cases lhs.outcome <;> cases rhs.outcome <;> rfl

theorem negate_outcome : (negate operand).outcome = operand.outcome := Script.outcome_followed rfl

theorem concat_outcome :
    (concat lhs rhs).outcome = lhs.outcome.bind fun _ => rhs.outcome := by
  simp only [concat, Script.outcome_bind]
  cases lhs.outcome <;> cases rhs.outcome <;> rfl

theorem loop_outcome :
    (loop lhs body).outcome = lhs.outcome.bind fun _ => body.outcome.map fun _ => () := by
  simp only [loop, loopTest, Script.outcome_bind]
  cases lhs.outcome <;> cases body.outcome <;> rfl

end blocks

variable (scope : Scope)

theorem checkBound_outcome (name : String) (position : Position) :
    (checkBound scope name).outcome = passUnless ((Node.var name).blame scope.bound position) := by
  rw [Node.blame_var, checkBound]
  by_cases h : name = scope.bound
  · simp only [h, if_true]
    rfl
  · simp only [h, if_false]
    rfl

theorem number_outcome (n : Node) :
    (number scope n).outcome = passUnless (n.blame scope.bound .number) := by
  induction n using number.induct with
  | case1 value => rfl
  | case2 name =>
    rw [← checkBound_outcome scope name .number]
    exact Script.outcome_followed rfl
  | case3 op lhs rhs left right =>
    rw [number, binary_outcome, left, right, Node.blame_binary, passUnless_or]
  | case4 operand ih =>
    rw [number, negate_outcome, ih]
    rfl
  | case5 | case6 | case7 | case8 | case9 | case10 | case11 | case12 => rfl

theorem string_outcome (n : Node) :
    (string scope n).outcome = passUnless (n.blame scope.bound .string) := by
  induction scope, n using string.induct with
  | case1 scope text => rfl
  | case2 scope name =>
    rw [← checkBound_outcome scope name .string]
    exact Script.outcome_followed rfl
  | case3 scope lhs rhs left right =>
    rw [string, concat_outcome, left, right, Node.blame_concat, passUnless_or]
    rfl
  | case4 | case5 | case6 | case7 | case8 | case9 | case10 | case11 | case12 => rfl

theorem assign_outcome (name : String) (value : Node) :
    (assign scope name value).outcome =
      passUnless ((Node.assign name value).blame scope.bound .free) := by
  rw [Node.blame_assign, passUnless_or, assign, Script.outcome_bind, checkBound_outcome scope name .free]
  congr 1
  funext _
  rw [Script.outcome_bind]
  -- The value is compiled as what its kind says, and stands in that position then.
  cases value with
  | number _ | var _ | binary _ _ _ | neg _ =>
    rw [Node.blame_congr (p := .assigned) (q := .number) rfl, ← number_outcome]
    exact Script.outcome_followed rfl
  | string _ | concat _ _ =>
    rw [Node.blame_congr (p := .assigned) (q := .string) rfl, ← string_outcome]
    exact Script.outcome_followed rfl
  | assign _ _ | loop _ _ | compare _ _ _ | block _ | print _ | call _ _ => rfl

/-- Whether the compilation of a tree fails, and with what, is settled by the first offence. -/
theorem node_outcome (n : Node) :
    (node scope n).outcome.map (fun _ => ()) = passUnless (n.blame scope.bound .free) := by
  induction scope, n using node.induct with
  | case1 scope name value =>
    rw [node, Script.map_outcome_pure, assign_outcome]
  | case2 scope cond body ih =>
    rw [node, Script.map_outcome_pure, loop_outcome, ih, number_outcome, Node.blame_loop,
      passUnless_or]
    rfl
  | case3 scope n notAssign notLoop =>
    cases n with
    | number _ | var _ | binary _ _ _ | neg _ =>
      rw [Node.blame_congr (p := .free) (q := .number) rfl, ← number_outcome]
      exact Script.map_outcome_pure _ ValueKind.number
    | string _ | concat _ _ =>
      rw [Node.blame_congr (p := .free) (q := .string) rfl, ← string_outcome]
      exact Script.map_outcome_pure _ ValueKind.string
    | assign name value => exact (notAssign _ _ rfl).elim
    | loop cond body => exact (notLoop _ _ rfl).elim
    | compare _ _ _ | block _ | print _ | call _ _ => rfl

end Codegen

theorem Node.verdict_error_iff {bound : String} {root : Node} {e : Error} :
    root.verdict bound = .error e ↔ root.blame bound .free = some e := by
  have settled := Codegen.node_outcome ⟨bound, 0⟩ root
  change (root.verdict bound).map _ = passUnless (root.blame bound .free) at settled
  cases verdict : root.verdict bound <;> cases blame : root.blame bound .free <;>
    simp_all [Except.map, passUnless]

/-- Where there is room, code generation accepts the trees of the grammar and no others, and gives
the kind that the grammar gives.  A tree that it does not accept is refused because of the first node
in preorder that offends where it stands, with that node's offence. -/
theorem assemble_blames_first_offender (bound : String) (root : Node) (linkage : Linkage)
    (first : Nat) (b : Buffer) (small : b.capacity ≤ maxReach)
    (room : b.offset + root.extent bound ≤ b.capacity) :
    let result := ((Codegen.node ⟨bound, first⟩ root).assemble linkage b).result
    (∀ kind, result = .ok kind ↔ Compilable bound kind root) ∧
    (∀ e, result = .error e ↔ ∃ before site after,
      root.sites .free = before ++ site :: after ∧
        (∀ earlier ∈ before, earlier.offence bound = none) ∧ site.offence bound = some e) := by
  intro result
  -- With enough room, the buffer has no say in the result.
  have settled : result = root.verdict bound := by
    have settles := (Codegen.node_orderly ⟨bound, first⟩ root).settles linkage
      (Nat.le_trans (Nat.le_add_right _ _) room) small
    rw [Node.size_node, Node.outcome_node] at settles
    exact (settles.fits room).1
  rw [settled]
  constructor
  · intro kind
    exact Codegen.node_ok_iff
  · intro e
    rw [Node.verdict_error_iff, Node.blame_eq_some_iff]

/-- A literal in number position is found before the print behind it and after the loop's variable,
which is in order. -/
theorem assemble_blames_literal :
    ((Codegen.node ⟨"x", 0⟩ (.loop (.var "x") (.assign "x" (.binary .add
        (.string .empty) (.print []))))).assemble .standard ⟨⟨100, #[]⟩, 0⟩).result =
      .error (.valueKind .string .number) := by
  obtain ⟨-, refused⟩ := assemble_blames_first_offender "x" (.loop (.var "x") (.assign "x"
    (.binary .add (.string .empty) (.print [])))) .standard 0 ⟨⟨100, #[]⟩, 0⟩ (by decide) (by decide)
  refine (refused _).2 ⟨[⟨.free, .loop _ _⟩, ⟨.number, .var "x"⟩, ⟨.free, .assign "x" _⟩,
    ⟨.assigned, .binary .add _ _⟩], ⟨.number, .string .empty⟩, [⟨.number, .print []⟩], rfl, ?_, rfl⟩
  simp [Site.offence, Node.offers, Node.subject?, Position.takes]

end TreeJit
