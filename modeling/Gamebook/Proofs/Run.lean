/-
# Gamebook.Proofs.Run — what a passage does when it runs

The script does not run stories; a host that embeds Lua does. This is the part of the host's behaviour
that a story can rely on, as an evaluator. Expressions evaluate as in Lua 5.4: only `nil` and `false`
count as untrue, conjunction and disjunction return an operand and skip the other, integers wrap around.
Everything else, what a division yields, what a comparison of a string with a number does, what a script
changes, is left to a `Host`, which may also refuse. A statement that is refused ends the passage as a
failure; what happened before it stays.
-/
import Gamebook.Story

namespace Gamebook

/-- A value at run time. Besides the literals there is `nil`, the value of a variable never assigned,
and what only the host knows, such as tables and functions. -/
inductive Value (Foreign : Type) where
  | nil
  | bool (value : Bool)
  | int (value : Int64)
  | float (value : Float)
  | str (value : String)
  | foreign (value : Foreign)

/-- The values of all variables. -/
abbrev Store (Foreign : Type) := String → Value Foreign

/-- What the language leaves to its host. An operation that is refused has no result. -/
structure Host (Foreign : Type) where
  unary : UnaryOp → Value Foreign → Option (Value Foreign)
  binary : BinaryOp → Value Foreign → Value Foreign → Option (Value Foreign)
  script : String → Store Foreign → Store Foreign

variable {Foreign : Type}

/-! ## Values -/

namespace Value

/-- Whether a value counts as true. -/
def truthy : Value Foreign → Bool
  | nil => false
  | bool b => b
  | _ => true

end Value

/-- The value a literal stands for. -/
def Literal.toValue : Literal → Value Foreign
  | .int n => .int n
  | .float x => .float x
  | .str s => .str s
  | .bool b => .bool b

namespace BinaryOp

/-- Arithmetic on integers wraps around. -/
def onIntegers? : BinaryOp → Int64 → Int64 → Option Int64
  | add, a, b => some (a + b)
  | sub, a, b => some (a - b)
  | mul, a, b => some (a * b)
  | _, _, _ => none

/-- The comparisons of an ordered kind of value. -/
def onOrdered? {α : Type} [LT α] [LE α] [DecidableLT α] [DecidableLE α] :
    BinaryOp → α → α → Option Bool
  | lt, a, b => some (a < b)
  | le, a, b => some (a ≤ b)
  | gt, a, b => some (a > b)
  | ge, a, b => some (a ≥ b)
  | _, _, _ => none

/-- The equality tests of a kind of value. -/
def onEqual? {α : Type} [BEq α] : BinaryOp → α → α → Option Bool
  | eq, a, b => some (a == b)
  | ne, a, b => some (a != b)
  | _, _, _ => none

/-- What an operator yields on two values, where the language says so. -/
def fixed? (op : BinaryOp) : Value Foreign → Value Foreign → Option (Value Foreign)
  | .int a, .int b =>
    (op.onIntegers? a b).map .int <|> (op.onOrdered? a b).map .bool <|> (op.onEqual? a b).map .bool
  | .str a, .str b => (op.onOrdered? a b).map .bool <|> (op.onEqual? a b).map .bool
  | .bool a, .bool b => (op.onEqual? a b).map .bool
  | .float a, .float b => (op.onEqual? a b).map .bool
  | .nil, .nil => (op.onEqual? () ()).map .bool
  | _, _ => none

/-- What an operator other than `and` and `or` yields on two values. -/
def apply (host : Host Foreign) (op : BinaryOp) (a b : Value Foreign) : Option (Value Foreign) :=
  op.fixed? a b <|> host.binary op a b

end BinaryOp

/-- What an operator yields on a value. -/
def UnaryOp.apply (host : Host Foreign) : UnaryOp → Value Foreign → Option (Value Foreign)
  | .not, v => some (.bool (!v.truthy))
  | .neg, .int n => some (.int (-n))
  | .neg, v => host.unary .neg v

/-- The value of an expression, unless the host refuses an operation. -/
def Expr.eval (host : Host Foreign) (σ : Store Foreign) : Expr → Option (Value Foreign)
  | .literal v => some v.toValue
  | .var name _ => some (σ name)
  | .unary op e => do op.apply host (← e.eval host σ)
  | .binary .and l r => do
    let v ← l.eval host σ
    if v.truthy then r.eval host σ else some v
  | .binary .or l r => do
    let v ← l.eval host σ
    if v.truthy then some v else r.eval host σ
  | .binary op l r => do
    let a ← l.eval host σ
    let b ← r.eval host σ
    op.apply host a b

/-! ## Statements -/

/-- What the player gets to see. -/
inductive Event where
  | text (content : String)
  | choice (text : String) (target : Option String)
  | divert (target : String)
  deriving DecidableEq

/-- How running some statements ends. -/
inductive Ending where
  /-- All of them have run. -/
  | finished
  /-- A jump has left the passage. -/
  | diverted
  /-- The host has refused an operation. -/
  | failed
  deriving DecidableEq

/-- What running some statements leads to: the events in order, the store after it and how it ends. -/
structure Playthrough (Foreign : Type) where
  events : List Event
  store : Store Foreign
  ending : Ending

namespace Playthrough

/-- All statements have run, with these events. -/
def done (events : List Event) (σ : Store Foreign) : Playthrough Foreign := ⟨events, σ, .finished⟩

/-- The host has refused an operation. -/
def refused (σ : Store Foreign) : Playthrough Foreign := ⟨[], σ, .failed⟩

/-- Goes on with more statements, if nothing has ended the passage. -/
def andThen (o : Playthrough Foreign) (next : Store Foreign → Playthrough Foreign) : Playthrough Foreign :=
  match o.ending with
  | .finished => { next o.store with events := o.events ++ (next o.store).events }
  | _ => o

@[simp] theorem done_nil_andThen (σ : Store Foreign) (next : Store Foreign → Playthrough Foreign) :
    (done [] σ).andThen next = next σ := rfl

theorem andThen_done (o : Playthrough Foreign) : o.andThen (done []) = o := by
  obtain ⟨events, σ, ending⟩ := o
  cases ending with
  | finished => simp [andThen, done]
  | diverted => rfl
  | failed => rfl

theorem andThen_assoc (o : Playthrough Foreign) (f g : Store Foreign → Playthrough Foreign) :
    (o.andThen f).andThen g = o.andThen fun σ => (f σ).andThen g := by
  obtain ⟨events, σ, ending⟩ := o
  cases ending with
  | finished =>
    simp only [andThen]
    split <;> simp [*]
  | diverted => rfl
  | failed => rfl

end Playthrough

namespace Store

/-- The store after an assignment. -/
def set (σ : Store Foreign) (name : String) (v : Value Foreign) : Store Foreign :=
  fun x => if x = name then v else σ x

end Store

/-- Offers a choice if its guard holds. -/
def Choice.run (host : Host Foreign) (c : Choice) (σ : Store Foreign) : Playthrough Foreign :=
  match c.guard with
  | none => .done [.choice c.text c.target] σ
  | some guard =>
    match guard.eval host σ with
    | none => .refused σ
    | some v => .done (if v.truthy then [.choice c.text c.target] else []) σ

/-- The value that an assignment gives its variable; a compound one starts from the old value. -/
def Assignment.eval (host : Host Foreign) (a : Assignment) (σ : Store Foreign) :
    Option (Value Foreign) := do
  let v ← a.value.eval host σ
  match a.op.binary? with
  | none => some v
  | some op => op.apply host (σ a.name) v

/-- Changes the variable of an assignment. -/
def Assignment.run (host : Host Foreign) (a : Assignment) (σ : Store Foreign) : Playthrough Foreign :=
  match a.eval host σ with
  | none => .refused σ
  | some v => .done [] (Store.set σ a.name v)

mutual

/-- What a statement leads to. A marker that belongs to no conditional does nothing. -/
def Node.run (host : Host Foreign) : Node → Store Foreign → Playthrough Foreign
  | .text content _, σ => .done [.text content] σ
  | .choice c, σ => c.run host σ
  | .assignment a, σ => a.run host σ
  | .conditional guard body otherwise _ _, σ =>
    match guard.eval host σ with
    | none => .refused σ
    | some v =>
      if v.truthy then Node.runAll host body σ
      else
        match otherwise with
        | none => .done [] σ
        | some branch => Node.runAll host branch σ
  | .script code _, σ => .done [] (host.script code σ)
  | .divert target _, σ => ⟨[.divert target], σ, .diverted⟩
  | .stray _ _, σ => .done [] σ

/-- What a body leads to: its statements run in order until one ends the passage. -/
def Node.runAll (host : Host Foreign) : List Node → Store Foreign → Playthrough Foreign
  | [], σ => .done [] σ
  | n :: ns, σ => (n.run host σ).andThen (Node.runAll host ns)

end

@[simp] theorem Node.runAll_nil (host : Host Foreign) (σ : Store Foreign) :
    Node.runAll host [] σ = .done [] σ := by rw [Node.runAll]

/-- A missing branch does what an empty one does. -/
theorem Node.run_conditional (host : Host Foreign) (σ : Store Foreign) (guard : Expr)
    (body : List Node) (otherwise : Option (List Node)) (opening : Position)
    (closing : Option Position) :
    (Node.conditional guard body otherwise opening closing).run host σ
      = match guard.eval host σ with
        | none => .refused σ
        | some v => Node.runAll host (if v.truthy then body else otherwise.getD []) σ := by
  cases otherwise with
  | none =>
    rw [Node.run]
    cases guard.eval host σ with
    | none => rfl
    | some v => cases hv : v.truthy <;> simp [hv]
  | some branch =>
    rw [Node.run]
    cases guard.eval host σ with
    | none => rfl
    | some v => cases hv : v.truthy <;> simp [hv]

theorem Node.runAll_append (host : Host Foreign) (ns ms : List Node) (σ : Store Foreign) :
    Node.runAll host (ns ++ ms) σ = (Node.runAll host ns σ).andThen (Node.runAll host ms) := by
  induction ns generalizing σ with
  | nil => rw [List.nil_append, Node.runAll_nil, Playthrough.done_nil_andThen]
  | cons n ns ih =>
    rw [List.cons_append, Node.runAll, Node.runAll, Playthrough.andThen_assoc]
    congr 1
    funext τ
    exact ih τ

theorem Node.runAll_singleton (host : Host Foreign) (n : Node) (σ : Store Foreign) :
    Node.runAll host [n] σ = n.run host σ := by
  have hnil : Node.runAll host [] = Playthrough.done [] := funext (Node.runAll_nil host)
  rw [Node.runAll, hnil, Playthrough.andThen_done]

end Gamebook
