/-
# Gamebook.Proofs.Lua.Grammar — the expressions of Lua

`Derives` is the grammar of Lua 5.4 for the expressions made of the words in `Gamebook.Proofs.Lua.Words`:
binary operators on five levels, all of them associating to the left, below them `not` and unary minus, and
below those the literals and what the manual calls prefix expressions, a name or a group in parentheses with
field accesses, method calls and calls after it. A call has one argument here. Parentheses leave no trace in
the tree.

The grammar is left recursive, but it has one tree at most for any words (`Derives.unique`). This is shown
by reading from left to right: `Reads` says where a reader that never goes back ends and with which tree.
It ends in one way only (`Reads.unique`), and what is derived is read (`Derives.begins`).
-/
import Gamebook.Proofs.Lua.Words

namespace Gamebook.Lua

/-! ## The grammar -/

/-- The tree of an expression. -/
inductive Term where
  | bool (b : Bool)
  | integer (n : Nat)
  /-- A decimal, for which there is no word. -/
  | decimal (f : Float)
  | string (value : List UInt8)
  | name (text : String)
  | field (of : Term) (name : String)
  | invoke (receiver : Term) (method : String) (argument : Term)
  | call (function argument : Term)
  | unary (op : UnaryOp) (operand : Term)
  | binary (op : BinaryOp) (left right : Term)

/-- The binary operators, loosest first. -/
def levels : List (List BinaryOp) :=
  [[.or], [.and], [.lt, .gt, .le, .ge, .ne, .eq], [.add, .sub], [.mul, .div, .mod]]

inductive Category where
  /-- An operation whose binary operators, outside parentheses, are those of the given levels. -/
  | operation (levels : List (List BinaryOp))
  /-- A name or a group, with what may be appended to it. -/
  | suffixed

/-- The tree of some words in a category. -/
inductive Derives : Category → List Word → Term → Prop
  | loosen {ops : List BinaryOp} {tighter : List (List BinaryOp)} {ws : List Word} {t : Term}
      (inner : Derives (.operation tighter) ws t) : Derives (.operation (ops :: tighter)) ws t
  | binary {ops : List BinaryOp} {tighter : List (List BinaryOp)} {op : BinaryOp} {ws vs : List Word}
      {l r : Term} (hop : op ∈ ops) (left : Derives (.operation (ops :: tighter)) ws l)
      (right : Derives (.operation tighter) vs r) :
      Derives (.operation (ops :: tighter)) (ws ++ .operator op :: vs) (.binary op l r)
  | not {ws : List Word} {t : Term} (inner : Derives (.operation []) ws t) :
      Derives (.operation []) (.not :: ws) (.unary .not t)
  | neg {ws : List Word} {t : Term} (inner : Derives (.operation []) ws t) :
      Derives (.operation []) (.operator .sub :: ws) (.unary .neg t)
  | bool (b : Bool) : Derives (.operation []) [.bool b] (.bool b)
  | integer (n : Nat) : Derives (.operation []) [.integer n] (.integer n)
  | string (value : List UInt8) : Derives (.operation []) [.string value] (.string value)
  | suffixed {ws : List Word} {t : Term} (inner : Derives .suffixed ws t) : Derives (.operation []) ws t
  | name (n : String) : Derives .suffixed [.name n] (.name n)
  | group {ws : List Word} {t : Term} (inner : Derives (.operation levels) ws t) :
      Derives .suffixed (.opening :: (ws ++ [.closing])) t
  | field {ws : List Word} {t : Term} (of : Derives .suffixed ws t) (n : String) :
      Derives .suffixed (ws ++ [.dot, .name n]) (.field t n)
  | invoke {ws vs : List Word} {t a : Term} (receiver : Derives .suffixed ws t) (m : String)
      (argument : Derives (.operation levels) vs a) :
      Derives .suffixed (ws ++ .colon :: .name m :: .opening :: (vs ++ [.closing])) (.invoke t m a)
  | call {ws vs : List Word} {t a : Term} (function : Derives .suffixed ws t)
      (argument : Derives (.operation levels) vs a) :
      Derives .suffixed (ws ++ .opening :: (vs ++ [.closing])) (.call t a)

/-- What is derived from tighter operators is derived from those and looser ones. -/
theorem Derives.of_suffix {ls ls' : List (List BinaryOp)} {ws : List Word} {t : Term}
    (h : Derives (.operation ls) ws t) (hsuffix : ls <:+ ls') : Derives (.operation ls') ws t := by
  obtain ⟨looser, rfl⟩ := hsuffix
  induction looser with
  | nil => exact h
  | cons ops looser ih => exact .loosen ih

/-! ## Reading from left to right -/

/-- Whether a word goes on with a name or a group before it. -/
def Word.isSuffix : Word → Bool
  | .dot | .colon | .opening => true
  | _ => false

/-- What a reader is about to read. -/
inductive Stage where
  | operation (levels : List (List BinaryOp))
  /-- The operators that may follow a left operand, and their right operands. -/
  | chain (ops : List BinaryOp) (tighter : List (List BinaryOp)) (left : Term)
  /-- What may be appended to a name or a group. -/
  | suffixes (of : Term)

/-- A reader at a stage takes some words from the first list, gives a tree and leaves the second list. -/
inductive Reads : Stage → List Word → Term → List Word → Prop
  | operation {ops : List BinaryOp} {tighter : List (List BinaryOp)} {ws ws' rest : List Word} {t u : Term}
      (first : Reads (.operation tighter) ws t ws') (more : Reads (.chain ops tighter t) ws' u rest) :
      Reads (.operation (ops :: tighter)) ws u rest
  | extend {ops : List BinaryOp} {tighter : List (List BinaryOp)} {op : BinaryOp} {ws ws' rest : List Word}
      {t r u : Term} (hop : op ∈ ops) (right : Reads (.operation tighter) ws r ws')
      (more : Reads (.chain ops tighter (.binary op t r)) ws' u rest) :
      Reads (.chain ops tighter t) (.operator op :: ws) u rest
  | finish {ops : List BinaryOp} {tighter : List (List BinaryOp)} {ws : List Word} {t : Term}
      (hstop : ∀ op ∈ ops, ws.head? ≠ some (.operator op)) : Reads (.chain ops tighter t) ws t ws
  | not {ws rest : List Word} {t : Term} (inner : Reads (.operation []) ws t rest) :
      Reads (.operation []) (.not :: ws) (.unary .not t) rest
  | neg {ws rest : List Word} {t : Term} (inner : Reads (.operation []) ws t rest) :
      Reads (.operation []) (.operator .sub :: ws) (.unary .neg t) rest
  | bool (b : Bool) (rest : List Word) : Reads (.operation []) (.bool b :: rest) (.bool b) rest
  | integer (n : Nat) (rest : List Word) : Reads (.operation []) (.integer n :: rest) (.integer n) rest
  | string (value : List UInt8) (rest : List Word) :
      Reads (.operation []) (.string value :: rest) (.string value) rest
  | name {n : String} {ws rest : List Word} {t : Term} (more : Reads (.suffixes (.name n)) ws t rest) :
      Reads (.operation []) (.name n :: ws) t rest
  | group {ws ws' rest : List Word} {t u : Term} (inner : Reads (.operation levels) ws t (.closing :: ws'))
      (more : Reads (.suffixes t) ws' u rest) : Reads (.operation []) (.opening :: ws) u rest
  | field {n : String} {ws rest : List Word} {t u : Term}
      (more : Reads (.suffixes (.field t n)) ws u rest) :
      Reads (.suffixes t) (.dot :: .name n :: ws) u rest
  | invoke {m : String} {ws ws' rest : List Word} {t a u : Term}
      (argument : Reads (.operation levels) ws a (.closing :: ws'))
      (more : Reads (.suffixes (.invoke t m a)) ws' u rest) :
      Reads (.suffixes t) (.colon :: .name m :: .opening :: ws) u rest
  | call {ws ws' rest : List Word} {t a u : Term}
      (argument : Reads (.operation levels) ws a (.closing :: ws'))
      (more : Reads (.suffixes (.call t a)) ws' u rest) : Reads (.suffixes t) (.opening :: ws) u rest
  | bare {ws : List Word} {t : Term} (hstop : ∀ w ∈ ws.head?, w.isSuffix = false) :
      Reads (.suffixes t) ws t ws

/-- **A reader has no choice.** -/
theorem Reads.unique {stage : Stage} {ws rest : List Word} {t : Term} (h : Reads stage ws t rest) :
    ∀ {t' : Term} {rest' : List Word}, Reads stage ws t' rest' → t = t' ∧ rest = rest' := by
  induction h with
  | operation first more ihfirst ihmore =>
    intro t' rest' h'
    cases h' with
    | operation first' more' =>
      obtain ⟨rfl, rfl⟩ := ihfirst first'
      exact ihmore more'
  | extend hop right more ihright ihmore =>
    intro t' rest' h'
    cases h' with
    | extend hop' right' more' =>
      obtain ⟨rfl, rfl⟩ := ihright right'
      exact ihmore more'
    -- A chain never ends before an operator of its level.
    | finish hstop => exact absurd rfl (hstop _ hop)
  | finish hstop =>
    intro t' rest' h'
    cases h' with
    | extend hop right more => exact absurd rfl (hstop _ hop)
    | finish hstop' => exact ⟨rfl, rfl⟩
  | not inner ih | neg inner ih =>
    intro t' rest' h'
    cases h' with | _ inner' =>
    obtain ⟨rfl, rfl⟩ := ih inner'
    exact ⟨rfl, rfl⟩
  | bool | integer | string =>
    intro t' rest' h'
    cases h'
    exact ⟨rfl, rfl⟩
  | name more ih =>
    intro t' rest' h'
    cases h' with | name more' =>
    exact ih more'
  | group inner more ihinner ihmore =>
    intro t' rest' h'
    cases h' with | group inner' more' =>
    obtain ⟨rfl, hrest⟩ := ihinner inner'
    cases hrest
    exact ihmore more'
  | field more ih =>
    intro t' rest' h'
    cases h' with
    | field more' => exact ih more'
    | bare hstop => exact absurd (hstop _ rfl) (by decide)
  | invoke argument more ihargument ihmore =>
    intro t' rest' h'
    cases h' with
    | invoke argument' more' =>
      obtain ⟨rfl, hrest⟩ := ihargument argument'
      cases hrest
      exact ihmore more'
    | bare hstop => exact absurd (hstop _ rfl) (by decide)
  | call argument more ihargument ihmore =>
    intro t' rest' h'
    cases h' with
    | call argument' more' =>
      obtain ⟨rfl, hrest⟩ := ihargument argument'
      cases hrest
      exact ihmore more'
    | bare hstop => exact absurd (hstop _ rfl) (by decide)
  | bare hstop =>
    intro t' rest' h'
    cases h' with
    | bare hstop' => exact ⟨rfl, rfl⟩
    | _ => exact absurd (hstop _ rfl) (by decide)

/-! ## What is derived is read -/

/-- Whether no word comes first that goes on with an operation of the given levels. -/
def Ends (ls : List (List BinaryOp)) (ws : List Word) : Prop :=
  ∀ w ∈ ws.head?, w.isSuffix = false ∧ ∀ ops ∈ ls, ∀ op ∈ ops, w ≠ .operator op

theorem ends_nil (ls : List (List BinaryOp)) : Ends ls [] := by
  intro w hw
  cases hw

theorem ends_closing (ls : List (List BinaryOp)) (ws : List Word) : Ends ls (.closing :: ws) := by
  intro w hw
  cases hw
  exact ⟨rfl, fun _ _ _ _ => Word.noConfusion⟩

namespace Category

/-- The binary operators of a category. -/
def operators : Category → List BinaryOp
  | operation ls => ls.flatten
  | suffixed => []

/-- How words are read that are derived in a category. An operator may follow an operation, and more may be
appended to a name or a group; then a longer phrase is read, of which they are the beginning. -/
def Begins : Category → List Word → Term → Prop
  | operation [], ws, t => ∀ rest, Ends [] rest → Reads (.operation []) (ws ++ rest) t rest
  | operation (ops :: tighter), ws, t => ∀ rest u after, Ends tighter rest →
      Reads (.chain ops tighter t) rest u after → Reads (.operation (ops :: tighter)) (ws ++ rest) u after
  | suffixed, ws, t => ∀ rest u after,
      Reads (.suffixes t) rest u after → Reads (.operation []) (ws ++ rest) u after

/-- Where nothing goes on with an operation, it is read as itself. -/
theorem Begins.reads {ls : List (List BinaryOp)} {ws : List Word} {t : Term}
    (h : Begins (operation ls) ws t) {rest : List Word} (hrest : Ends ls rest) :
    Reads (.operation ls) (ws ++ rest) t rest := by
  cases ls with
  | nil => exact h rest hrest
  | cons ops tighter =>
    refine h rest t rest (fun w hw => ?_) (.finish fun op hop hhead => ?_)
    · exact ⟨(hrest w hw).1, fun ops' hops' => (hrest w hw).2 ops' (List.mem_cons_of_mem ops hops')⟩
    · exact (hrest _ hhead).2 ops List.mem_cons_self op hop rfl

end Category

/-- **What is derived in a category is read there,** if no operator is on two levels. -/
theorem Derives.begins {c : Category} {ws : List Word} {t : Term} (h : Derives c ws t)
    (hnodup : c.operators.Nodup) : c.Begins ws t := by
  -- Inside parentheses all the levels are read again.
  have hlevels : (Category.operation levels).operators.Nodup := by decide
  induction h with
  | loosen inner ih =>
    intro rest u after hrest hchain
    exact .operation ((ih (List.nodup_append.mp hnodup).2.1).reads hrest) hchain
  | @binary ops tighter op ws vs l r hop left right ihl ihr =>
    intro rest u after hrest hchain
    obtain ⟨-, htighter, hdisjoint⟩ := List.nodup_append.mp hnodup
    have hright := (ihr htighter).reads hrest
    -- The operator is none of a tighter level, so the left operand ends before it.
    have hends : Ends tighter (.operator op :: (vs ++ rest)) := by
      intro w hw
      cases hw
      refine ⟨rfl, fun ops' hops' op' hop' heq => ?_⟩
      cases heq
      exact hdisjoint op hop op (List.mem_flatten.mpr ⟨ops', hops', hop'⟩) rfl
    rw [List.append_assoc]
    exact ihl hnodup _ u after hends (.extend hop hright hchain)
  | not inner ih => exact fun rest hrest => .not (ih hnodup rest hrest)
  | neg inner ih => exact fun rest hrest => .neg (ih hnodup rest hrest)
  | bool b => exact fun rest _ => .bool b rest
  | integer n => exact fun rest _ => .integer n rest
  | string value => exact fun rest _ => .string value rest
  | suffixed inner ih => exact fun rest hrest => ih hnodup rest _ rest (.bare fun w hw => (hrest w hw).1)
  | name n => exact fun rest u after hmore => .name hmore
  | @group ws t inner ih =>
    intro rest u after hmore
    have hinner := (ih hlevels).reads (ends_closing levels rest)
    rw [List.cons_append, List.append_assoc]
    exact .group hinner hmore
  | field of n ih =>
    intro rest u after hmore
    rw [List.append_assoc]
    exact ih hnodup _ u after (.field hmore)
  | invoke receiver m argument ihreceiver ihargument =>
    intro rest u after hmore
    have hargument := (ihargument hlevels).reads (ends_closing levels rest)
    simp only [List.cons_append, List.append_assoc, List.nil_append]
    exact ihreceiver hnodup _ u after (.invoke hargument hmore)
  | call function argument ihfunction ihargument =>
    intro rest u after hmore
    have hargument := (ihargument hlevels).reads (ends_closing levels rest)
    simp only [List.cons_append, List.append_assoc, List.nil_append]
    exact ihfunction hnodup _ u after (.call hargument hmore)

/-- **The grammar is unambiguous.** -/
theorem Derives.unique {ws : List Word} {t u : Term} (ht : Derives (.operation levels) ws t)
    (hu : Derives (.operation levels) ws u) : t = u := by
  have hnodup : (Category.operation levels).operators.Nodup := by decide
  have hread := (ht.begins hnodup).reads (ends_nil levels)
  exact (hread.unique ((hu.begins hnodup).reads (ends_nil levels))).1

end Gamebook.Lua
