/-
# Gamebook.Proofs.Lua.Structure — no text of the author changes the structure of a module

A Lua text is cut into the characters outside strings and the strings (`fragments`). Its outline forgets
what the strings say and keeps where they stand. Texts with one outline are alike, and being alike is kept
by putting texts one after another, since what is cut from a closed text does not depend on what follows.

Two stories are alike if they agree in everything but places and what their strings say. Each is compared
with itself, blanked: every string that goes into the module goes there quoted, and what is not quoted
depends on the blanked story alone. So the modules of stories that are alike have one outline
(`ofStory_alike`).
-/
import Gamebook.Lua.Module
import Gamebook.Proofs.Body
import Gamebook.Proofs.Decimal
import Gamebook.Proofs.Lua.Strings
import Mathlib.Data.List.Forall2

namespace Gamebook

namespace Lua

/-! ## Fragments -/

/-- A part of a Lua text: a character outside strings, or a double-quoted string with its value. -/
inductive Fragment where
  | outside (c : Char)
  | string (value : List UInt8)
  deriving DecidableEq

/-- The fragment without the value of its string. -/
def Fragment.shape : Fragment → Option Char
  | outside c => some c
  | string _ => none

/-- Cuts a Lua text into fragments, if all its strings end. -/
def fragments : List Char → Option (List Fragment)
  | [] => some []
  | c :: cs =>
    if c = '"' then
      match h : readBody cs with
      | none => none
      | some (value, rest) =>
        have : rest.length < cs.length + 1 := Nat.lt_succ_of_lt (length_readBody h)
        (fragments rest).map (.string value :: ·)
    else (fragments cs).map (.outside c :: ·)
termination_by cs => cs.length

theorem fragments_nil : fragments [] = some [] := by rw [fragments]

theorem fragments_outside {c : Char} (h : c ≠ '"') (cs : List Char) :
    fragments (c :: cs) = (fragments cs).map (.outside c :: ·) := by
  rw [fragments, if_neg h]

theorem fragments_string {cs rest : List Char} {value : List UInt8} (h : readBody cs = some (value, rest)) :
    fragments ('"' :: cs) = (fragments rest).map (.string value :: ·) := by
  rw [fragments, if_pos rfl]
  split
  · next hnone =>
    rw [h] at hnone
    cases hnone
  · next hsome =>
    rw [h] at hsome
    cases hsome
    rfl

/-- The text is cut into fragments with the given outline, whatever follows it. -/
def Outlined (text : List Char) (outline : List (Option Char)) : Prop :=
  ∃ fs : List Fragment, fs.map Fragment.shape = outline ∧
    ∀ rest, fragments (text ++ rest) = (fragments rest).map (fs ++ ·)

theorem outlined_nil : Outlined [] [] := ⟨[], rfl, fun rest => by simp⟩

theorem Outlined.append {a b : List Char} {o p : List (Option Char)} (ha : Outlined a o)
    (hb : Outlined b p) : Outlined (a ++ b) (o ++ p) := by
  obtain ⟨fs, hfs, hcut⟩ := ha
  obtain ⟨gs, hgs, hcut'⟩ := hb
  refine ⟨fs ++ gs, by rw [List.map_append, hfs, hgs], fun rest => ?_⟩
  rw [List.append_assoc, hcut, hcut', Option.map_map]
  congr 1
  funext hs
  exact (List.append_assoc fs gs hs).symm

theorem outlined_plain {cs : List Char} (h : '"' ∉ cs) : Outlined cs (cs.map some) := by
  induction cs with
  | nil => exact outlined_nil
  | cons c cs ih =>
    rw [List.mem_cons, not_or] at h
    have hc : Outlined [c] [some c] :=
      ⟨[.outside c], rfl, fun rest => fragments_outside (Ne.symm h.1) rest⟩
    exact hc.append (ih h.2)

/-- **A quoted string is one fragment,** whatever it says. -/
theorem outlined_quoted (s : String) : Outlined (quoted s) [none] := by
  refine ⟨[.string (bytes s)], rfl, fun rest => ?_⟩
  have htext : quoted s ++ rest = '"' :: (s.toList.flatMap escape ++ '"' :: rest) := by
    rw [quoted, List.cons_append, List.append_assoc]
    rfl
  rw [htext, fragments_string (readBody_escaped _ _)]
  rfl

theorem Outlined.fragments {a : List Char} {o : List (Option Char)} (h : Outlined a o) :
    ∃ fs, fragments a = some fs ∧ fs.map Fragment.shape = o := by
  obtain ⟨fs, hfs, hcut⟩ := h
  have hall := hcut []
  rw [List.append_nil, fragments_nil] at hall
  refine ⟨fs, ?_, hfs⟩
  rw [hall, Option.map_some, List.append_nil]

theorem Outlined.unique {a : List Char} {o p : List (Option Char)} (ho : Outlined a o) (hp : Outlined a p) :
    o = p := by
  obtain ⟨fs, hfs, rfl⟩ := ho.fragments
  obtain ⟨gs, hgs, rfl⟩ := hp.fragments
  rw [hfs] at hgs
  rw [Option.some.inj hgs]

/-- The first character of a text shows in its outline, as a string starts with a quote. -/
theorem Outlined.head? {a : List Char} {o : List (Option Char)} (h : Outlined a o) :
    a.head? = o.head?.map fun x => x.getD '"' := by
  obtain ⟨fs, hfs, rfl⟩ := h.fragments
  cases a with
  | nil =>
    rw [fragments_nil] at hfs
    cases hfs
    rfl
  | cons c cs =>
    by_cases hc : c = '"'
    · subst hc
      cases hbody : readBody cs with
      | none =>
        rw [Lua.fragments, if_pos rfl] at hfs
        split at hfs
        · cases hfs
        · next hsome =>
          rw [hbody] at hsome
          cases hsome
      | some r =>
        obtain ⟨value, rest⟩ := r
        rw [fragments_string hbody] at hfs
        obtain ⟨gs, -, rfl⟩ := Option.map_eq_some_iff.mp hfs
        rfl
    · rw [fragments_outside hc] at hfs
      obtain ⟨gs, -, rfl⟩ := Option.map_eq_some_iff.mp hfs
      rfl

/-- Two texts that have one outline. -/
def Like (a b : List Char) : Prop := ∃ o, Outlined a o ∧ Outlined b o

namespace Like

theorem plain {p : List Char} (h : '"' ∉ p) : Like p p :=
  ⟨_, outlined_plain h, outlined_plain h⟩

theorem quoted (s t : String) : Like (quoted s) (quoted t) :=
  ⟨_, outlined_quoted s, outlined_quoted t⟩

variable {a b c d : List Char}

theorem symm (h : Like a b) : Like b a := by
  obtain ⟨o, ha, hb⟩ := h
  exact ⟨o, hb, ha⟩

theorem trans (h : Like a b) (h' : Like b c) : Like a c := by
  obtain ⟨o, ha, hb⟩ := h
  obtain ⟨p, hb', hc⟩ := h'
  exact ⟨o, ha, hb.unique hb' ▸ hc⟩

theorem append (h : Like a b) (h' : Like c d) : Like (a ++ c) (b ++ d) := by
  obtain ⟨o, ha, hb⟩ := h
  obtain ⟨p, hc, hd⟩ := h'
  exact ⟨o ++ p, ha.append hc, hb.append hd⟩

theorem after {p : List Char} (h : Like a b) (hp : '"' ∉ p) : Like (p ++ a) (p ++ b) :=
  (plain hp).append h

theorem between {p q : List Char} (h : Like a b) (hp : '"' ∉ p) (hq : '"' ∉ q) :
    Like (p ++ (a ++ q)) (p ++ (b ++ q)) :=
  (h.append (plain hq)).after hp

theorem cons {x : Char} (hx : x ≠ '"') (h : Like a b) : Like (x :: a) (x :: b) :=
  h.after (p := [x]) fun hmem => hx (List.mem_singleton.mp hmem).symm

theorem head? (h : Like a b) : a.head? = b.head? := by
  obtain ⟨o, ha, hb⟩ := h
  rw [ha.head?, hb.head?]

theorem enclose (h : Like a b) (needed : Bool) : Like (Expr.enclose needed a) (Expr.enclose needed b) := by
  cases needed with
  | false => exact h
  | true => exact h.between (p := ['(']) (by decide) (by decide)

theorem line (h : Like a b) (depth : Nat) : Like (Lua.line depth a) (Lua.line depth b) := by
  have hblank : '"' ∉ List.replicate (2 * depth) ' ' := by simp
  exact h.between hblank (by decide)

theorem plain_line {p : List Char} (hp : '"' ∉ p) (depth : Nat) :
    Like (Lua.line depth p) (Lua.line depth p) :=
  (plain hp).line depth

theorem flatten {as bs : List (List Char)} (h : List.Forall₂ Like as bs) : Like as.flatten bs.flatten := by
  induction h with
  | nil => exact plain (by simp)
  | cons hhead _ ih => exact hhead.append ih

theorem intersperse {p : List Char} (hp : '"' ∉ p) {as bs : List (List Char)}
    (h : List.Forall₂ Like as bs) : List.Forall₂ Like (as.intersperse p) (bs.intersperse p) := by
  induction h with
  | nil => exact .nil
  | cons hhead htail ih =>
    cases htail with
    | nil => exact .cons hhead .nil
    | cons hnext hrest => exact .cons hhead (.cons (plain hp) ih)

end Like

/-! ## Expressions -/

theorem quote_not_mem_digits (n : Nat) : '"' ∉ Decimal.digits n := by
  intro hmem
  have hdigit : '"'.isDigit = true := Nat.isDigit_of_mem_toDigits (by decide) (by decide) hmem
  cases hdigit

theorem quote_not_mem_sign (negative : Bool) : '"' ∉ Decimal.sign negative := by
  cases negative <;> decide

/-- No numeral holds a quote. -/
theorem quote_not_mem_decimal (f : Float) : '"' ∉ Decimal.chars f := by
  have hdigits := quote_not_mem_digits
  have hmagnitude : ∀ m e tight, '"' ∉ Decimal.magnitude m e tight := by
    intro m e tight
    rw [Decimal.magnitude]
    split
    · simp [Decimal.wholeDigits, hdigits]
    · simp [Decimal.positional, List.leftpad, hdigits]
  unfold Decimal.chars Decimal.signed
  split
  · simp [quote_not_mem_sign, hmagnitude]
  · simp [quote_not_mem_sign]
  · decide

end Lua

/-- The literal, blanked if it is a string. -/
def Literal.blank : Literal → Literal
  | .str _ => .str ""
  | v => v

/-- The expression without its places and what its strings and names say. -/
def Expr.blank : Expr → Expr
  | .literal v => .literal v.blank
  | .var _ _ => .var "" .unplaced
  | .unary op e => .unary op e.blank
  | .binary op l r => .binary op l.blank r.blank

namespace Lua

theorem rank_blank (e : Expr) : rank e.blank = rank e := by
  cases e <;> rfl

theorem like_literal (v : Literal) : Like (literal v) (literal v.blank) := by
  cases v with
  | int n =>
    refine Like.plain ?_
    rw [literal]
    split
    · decide
    · simp [Decimal.integer, quote_not_mem_sign, quote_not_mem_digits]
  | float f =>
    have htext : literal (.float f) = Decimal.chars f := (decimal_eq_chars f).trans (Literal.chars_float f)
    exact Like.plain (htext ▸ quote_not_mem_decimal f)
  | str s => exact Like.quoted s ""
  | bool b => exact Like.plain (by cases b <;> decide)

/-- **An expression is written with the outline of the blanked one.** -/
theorem like_expr (e : Expr) : Like (expr e) (expr e.blank) := by
  induction e with
  | literal v => exact like_literal v
  | var name pos =>
    exact ((Like.quoted name "").after (by decide)).append (Like.plain (by decide))
  | unary op e ih =>
    have hoperand := ih.enclose (rank e < unaryRank)
    rw [Expr.blank, expr, expr, rank_blank]
    cases op with
    | not => exact hoperand.after (by decide)
    | neg =>
      -- Whether the operand starts with a minus shows in its outline.
      rw [unary, unary, hoperand.head?]
      exact Like.cons (by decide) (hoperand.enclose _)
  | binary op l r ihl ihr =>
    have hop : '"' ∉ (spelling op).toList := by cases op <;> decide
    rw [Expr.blank, expr, expr, rank_blank, rank_blank]
    exact (ihl.enclose _).append (Like.cons (by decide) ((Like.cons (by decide) (ihr.enclose _)).after hop))

theorem like_optional {s t : Option String} (h : s.isSome = t.isSome) : Like (optional s) (optional t) := by
  cases s with
  | none =>
    cases t with
    | none => exact Like.plain (by decide)
    | some t => cases h
  | some s =>
    cases t with
    | none => cases h
    | some t => exact Like.quoted s t

end Lua

/-! ## Statements -/

/-- The choice without its place and what its strings say. -/
def Choice.blank (c : Choice) : Choice :=
  ⟨"", c.guard.map Expr.blank, c.target.map fun _ => "", .unplaced⟩

/-- The assignment without its place and what its strings say. -/
def Assignment.blank (a : Assignment) : Assignment := ⟨"", a.op, a.value.blank, .unplaced⟩

mutual

/-- The statement without its places and what its strings say. -/
def Node.blank : Node → Node
  | .text _ _ => .text "" .unplaced
  | .choice c => .choice c.blank
  | .assignment a => .assignment a.blank
  | .conditional guard body otherwise _ closing =>
    .conditional guard.blank (Node.blankAll body)
      (match otherwise with
        | none => none
        | some branch => some (Node.blankAll branch))
      .unplaced (closing.map fun _ => .unplaced)
  | .script code _ => .script code .unplaced
  | .divert _ _ => .divert "" .unplaced
  | .stray marker _ => .stray marker .unplaced

/-- The body without its places and what its strings say. -/
def Node.blankAll : List Node → List Node
  | [] => []
  | n :: ns => n.blank :: Node.blankAll ns

end

/-- Whether a statement is written in Lua, and not in a script that is copied as it is. -/
def Node.isPlain : Node → Bool
  | .script _ _ | .stray _ _ => false
  | _ => true

namespace Lua

theorem like_choice (c : Choice) : Like (choice c) (choice c.blank) := by
  obtain ⟨text, guard, target, pos⟩ := c
  have htarget : Like (optional target) (optional (target.map fun _ => "")) :=
    like_optional Option.isSome_map.symm
  have hrest := (htarget.between (p := ", ".toList) (q := [')']) (by decide) (by decide))
  refine ((Like.quoted text "").append ((Like.append ?_ hrest).after (by decide))).after (by decide)
  cases guard with
  | none => exact Like.plain (p := "nil".toList) (by decide)
  | some g => exact (like_expr g).between (by decide) (by decide)

theorem like_assignment (a : Assignment) : Like (assignment a) (assignment a.blank) := by
  have hvalue : assigned a.blank = (assigned a).blank := by
    unfold assigned Assignment.blank
    cases a.op.binary? <;> rfl
  have hrest := (like_expr (assigned a)).between (p := ", ".toList) (q := [')']) (by decide) (by decide)
  rw [← hvalue] at hrest
  exact ((Like.quoted a.name "").append hrest).after (by decide)

/-- Both come to their ends, with texts that are alike. -/
def LikeOutcomes (x y : Except Unsupported (List Char)) : Prop :=
  ∃ a b, x = .ok a ∧ y = .ok b ∧ Like a b

theorem LikeOutcomes.bind {x y : Except Unsupported (List Char)}
    {f g : List Char → Except Unsupported (List Char)} (h : LikeOutcomes x y)
    (hfg : ∀ a b, Like a b → LikeOutcomes (f a) (g b)) : LikeOutcomes (x >>= f) (y >>= g) := by
  obtain ⟨a, b, rfl, rfl, hlike⟩ := h
  exact hfg a b hlike

theorem LikeOutcomes.ok {a b : List Char} (h : Like a b) :
    LikeOutcomes (.ok a) (.ok b) := ⟨a, b, rfl, rfl, h⟩

theorem LikeOutcomes.symm {x y : Except Unsupported (List Char)} (h : LikeOutcomes x y) :
    LikeOutcomes y x := by
  obtain ⟨a, b, ha, hb, hlike⟩ := h
  exact ⟨b, a, hb, ha, hlike.symm⟩

theorem LikeOutcomes.trans {x y z : Except Unsupported (List Char)} (h : LikeOutcomes x y)
    (h' : LikeOutcomes y z) : LikeOutcomes x z := by
  obtain ⟨a, b, ha, hb, hlike⟩ := h
  obtain ⟨b', c, hb', hc, hlike'⟩ := h'
  rw [hb] at hb'
  cases hb'
  exact ⟨a, c, ha, hc, hlike.trans hlike'⟩

/-- **A body without scripts is written with the outline of the blanked one.** -/
theorem like_nodes {ns : List Node} (h : Node.Everywhere (fun n => n.isPlain = true) ns) (depth : Nat) :
    LikeOutcomes (nodes depth ns) (nodes depth (Node.blankAll ns)) := by
  induction ns using Node.body_induction generalizing depth with
  | nil => exact .ok (Like.plain (by decide))
  | leaf n ns hn ih =>
    obtain ⟨hhead, htail⟩ := Node.everywhere_cons.mp h
    rw [Node.everywhere_leaf hn] at hhead
    have hnode : LikeOutcomes (node depth n) (node depth n.blank) := by
      cases n with
      | conditional => cases hn
      | script code pos => cases hhead
      | stray marker pos => cases hhead
      | text content pos => exact .ok (((Like.quoted content "").between (by decide) (by decide)).line depth)
      | choice c => exact .ok ((like_choice c).line depth)
      | assignment a => exact .ok ((like_assignment a).line depth)
      | divert target pos => exact .ok (((Like.quoted target "").between (by decide) (by decide)).line depth)
    rw [Node.blankAll, nodes, nodes]
    exact hnode.bind fun a b hab => (ih htail depth).bind fun c d hcd => .ok (hab.append hcd)
  | conditional guard body otherwise opening closing ns ihBody ihBranch ih =>
    obtain ⟨hhead, htail⟩ := Node.everywhere_cons.mp h
    obtain ⟨-, hbody, hbranch⟩ := Node.everywhere_conditional.mp hhead
    have hopen : Like (line depth ("if ".toList ++ (expr guard ++ " then".toList)))
        (line depth ("if ".toList ++ (expr guard.blank ++ " then".toList))) :=
      ((like_expr guard).between (by decide) (by decide)).line depth
    have hend := Like.plain_line (p := "end".toList) (by decide) depth
    have helse := Like.plain_line (p := "else".toList) (by decide) depth
    have hnode : LikeOutcomes (node depth (.conditional guard body otherwise opening closing))
        (node depth (Node.conditional guard body otherwise opening closing).blank) := by
      cases otherwise with
      | none =>
        rw [Node.blank, node, node]
        refine (ihBody hbody (depth + 1)).bind fun a b hab => ?_
        exact .ok (hopen.append (hab.append hend))
      | some branch =>
        rw [Node.blank, node, node]
        refine (ihBody hbody (depth + 1)).bind fun a b hab => ?_
        refine LikeOutcomes.bind ?_ fun c d hcd => .ok (hopen.append (hab.append (hcd.append hend)))
        exact (ihBranch branch rfl (hbranch branch rfl) (depth + 1)).bind fun c d hcd =>
          .ok (helse.append hcd)
    rw [Node.blankAll, nodes, nodes]
    exact hnode.bind fun a b hab => (ih htail depth).bind fun c d hcd => .ok (hab.append hcd)

end Lua

/-! ## Stories -/

/-- Two passages with equally many tags whose bodies agree in all but places and what their strings say. -/
structure Passage.Alike (p q : Passage) : Prop where
  tags : p.tags.names.length = q.tags.names.length
  body : Node.blankAll p.body = Node.blankAll q.body

/-- Two stories that agree in all but places and what their strings say: the same of title and author are
there, and there are equally many metadata and passages. -/
structure Story.Alike (s t : Story) : Prop where
  title : s.title.isSome = t.title.isSome
  author : s.author.isSome = t.author.isSome
  metadata : s.metadata.entries.length = t.metadata.entries.length
  passages : List.Forall₂ Passage.Alike s.passages t.passages

/-- A story without scripts and without markers that belong to no conditional. -/
def Story.IsPlain (s : Story) : Prop :=
  ∀ p ∈ s.passages, Node.Everywhere (fun n => n.isPlain = true) p.body

instance (s : Story) : Decidable s.IsPlain := inferInstanceAs (Decidable (∀ p ∈ _, _))

namespace Lua

section

variable {a b : List Char}

theorem Like.field (h : Like a b) {n : String} (hn : '"' ∉ n.toList) : Like (field n a) (field n b) :=
  (((h.after (by decide)).after hn).after (by decide)).line 0

theorem Like.entry (h : Like a b) (key key' : String) : Like (entry key a) (entry key' b) := by
  have hvalue := h.between (p := "] = ".toList) (q := [',']) (by decide) (by decide)
  exact (Like.cons (by decide) ((Like.quoted key key').append hvalue)).line 1

theorem Like.table {as bs : List (List Char)} (h : List.Forall₂ Like as bs) {n : String}
    (hn : '"' ∉ n.toList) : Like (table n as) (table n bs) := by
  cases h with
  | nil => exact (Like.plain (by decide)).field hn
  | cons hhead htail =>
    have hentries := Like.flatten (.cons hhead htail)
    exact ((Like.plain (by decide)).field hn).append
      (hentries.append (Like.plain_line (by decide) 0))

end

/-- Quoted strings are alike, so lists of them are if they are equally long. -/
theorem forall₂_map_of_length {α β : Type} {f : α → List Char} {g : β → List Char}
    (h : ∀ x y, Like (f x) (g y)) {xs : List α} {ys : List β} (hlength : xs.length = ys.length) :
    List.Forall₂ Like (xs.map f) (ys.map g) := by
  induction xs generalizing ys with
  | nil =>
    cases ys with
    | nil => exact .nil
    | cons y ys => cases hlength
  | cons x xs ih =>
    cases ys with
    | nil => cases hlength
    | cons y ys => exact .cons (h x y) (ih (Nat.succ.inj hlength))

theorem like_tags {p q : Passage} (h : p.Alike q) : Like (tags p) (tags q) := by
  have hquoted := forall₂_map_of_length Like.quoted h.tags
  have hlist := Like.flatten (Like.intersperse (p := ", ".toList) (by decide) hquoted)
  exact hlist.between (p := ['{', ' ']) (by decide) (by decide)

/-- The passages with tags are the same ones in both stories. -/
theorem like_tagTable {ps qs : List Passage} (h : List.Forall₂ Passage.Alike ps qs) :
    List.Forall₂ Like ((ps.filter fun p => !p.tags.isEmpty).map fun p => entry p.name (tags p))
      ((qs.filter fun p => !p.tags.isEmpty).map fun p => entry p.name (tags p)) := by
  induction h with
  | nil => exact .nil
  | @cons p q ps qs hhead htail ih =>
    have hsame : q.tags.isEmpty = p.tags.isEmpty := by
      rw [Bool.eq_iff_iff, NameSet.isEmpty, NameSet.isEmpty, List.isEmpty_iff_length_eq_zero,
        List.isEmpty_iff_length_eq_zero, hhead.tags]
    rw [List.filter_cons, List.filter_cons, hsame]
    split
    · exact .cons ((like_tags hhead).entry p.name q.name) ih
    · exact ih

theorem like_header {s t : Story} (h : s.Alike t) : Like (header s) (header t) := by
  have hmetadata : List.Forall₂ Like (s.metadata.entries.map fun e => entry e.1 (quoted e.2))
      (t.metadata.entries.map fun e => entry e.1 (quoted e.2)) :=
    forall₂_map_of_length (fun e e' => (Like.quoted e.2 e'.2).entry e.1 e'.1) h.metadata
  have hfields := ((Like.table hmetadata (n := "meta") (by decide)).append
    (((Like.quoted s.entryName t.entryName).field (n := "start") (by decide)).append
      ((Like.table (like_tagTable h.passages) (n := "tags") (by decide)).append
        ((Like.plain (p := ['{', '}']) (by decide)).field (n := "passages") (by decide)))))
  exact (Like.plain_line (by decide) 0).append ((Like.plain_line (by decide) 0).append
    ((Like.plain_line (by decide) 0).append (((like_optional h.title).field (by decide)).append
      (((like_optional h.author).field (by decide)).append hfields))))

theorem like_routine {p q : Passage} (h : p.Alike q)
    (hp : Node.Everywhere (fun n => n.isPlain = true) p.body)
    (hq : Node.Everywhere (fun n => n.isPlain = true) q.body) : LikeOutcomes (routine p) (routine q) := by
  have hbody : LikeOutcomes (nodes 1 p.body) (nodes 1 q.body) :=
    (like_nodes hp 1).trans (h.body ▸ (like_nodes hq 1).symm)
  have hempty := Like.plain_line (p := []) (by decide) 0
  have hopen := ((Like.quoted p.name q.name).between (p := "story.passages[".toList)
    (q := "] = function(rt)".toList) (by decide) (by decide)).line 0
  have hend := Like.plain_line (p := "end".toList) (by decide) 0
  exact hbody.bind fun a b hab => .ok (hempty.append (hopen.append (hab.append hend)))

theorem like_routines {ps qs : List Passage} (h : List.Forall₂ Passage.Alike ps qs)
    (hps : ∀ p ∈ ps, Node.Everywhere (fun n => n.isPlain = true) p.body)
    (hqs : ∀ q ∈ qs, Node.Everywhere (fun n => n.isPlain = true) q.body) :
    LikeOutcomes (routines ps) (routines qs) := by
  induction h with
  | nil => exact .ok (Like.plain (by decide))
  | cons hhead htail ih =>
    rw [List.forall_mem_cons] at hps hqs
    exact (like_routine hhead hps.1 hqs.1).bind fun a b hab =>
      (ih hps.2 hqs.2).bind fun c d hcd => .ok (hab.append hcd)

/-- **No text of the author changes the structure of a module.** The modules of two stories that are alike
are written, and both are cut into fragments, all strings closed; the fragments agree in everything but the
values of the strings: as many of them, strings in the same places, and outside of strings the same
characters. -/
theorem ofStory_alike {s t : Story} (h : s.Alike t) (hs : s.IsPlain) (ht : t.IsPlain) :
    ∃ a b fs gs, ofStory s = .ok a ∧ ofStory t = .ok b ∧
      fragments a.toList = some fs ∧ fragments b.toList = some gs ∧
      fs.map Fragment.shape = gs.map Fragment.shape := by
  obtain ⟨a, b, ha, hb, hbody⟩ := like_routines h.passages hs ht
  have hclosing : Like (line 0 [] ++ line 0 "return story".toList)
      (line 0 [] ++ line 0 "return story".toList) :=
    (Like.plain_line (by decide) 0).append (Like.plain_line (by decide) 0)
  obtain ⟨o, hleft, hright⟩ := (like_header h).append (hbody.append hclosing)
  obtain ⟨fs, hfs, hshape⟩ := hleft.fragments
  obtain ⟨gs, hgs, hshape'⟩ := hright.fragments
  have hwritten : ∀ {story : Story} {body : List Char}, routines story.passages = .ok body →
      ofStory story
        = .ok (String.ofList (header story ++ (body ++ (line 0 [] ++ line 0 "return story".toList)))) := by
    intro story body hbody
    rw [ofStory, hbody]
    rfl
  refine ⟨_, _, fs, gs, hwritten ha, hwritten hb, ?_, ?_, hshape.trans hshape'.symm⟩
  · rw [String.toList_ofList, hfs]
  · rw [String.toList_ofList, hgs]

/-- Two stories that are alike: in the second one every string tries to end its quotes, to comment out what
follows or to be read as something else. -/
theorem ofStory_alike_gate :
    let gate (name key value text coin target : String) (tag : List String) : Story :=
      ⟨some value, none, .ofList [(key, value)],
        [⟨name, .ofList tag,
          [.text text .unplaced,
            .choice ⟨text, some (.binary .eq (.named coin) (.str value)), some target, .unplaced⟩,
            .conditional (.unary .neg (.unary .neg (.named coin)))
              [.assignment ⟨coin, .add, .int (-1), .unplaced⟩] (some [.divert target .unplaced])
              .unplaced none],
          .unplaced⟩]⟩
    let calm := gate "Gate" "lang" "en" "Hello." "gold" "Gate" ["dark", "old"]
    let wild := gate "\"] = nil --" "\\" "a\\\"b" "\")\nos.exit()--[[" "x\r\n" "\x01234\u0085\x7F9"
      ["", "]]"]
    (calm.Alike wild ∧ calm.IsPlain ∧ wild.IsPlain) ∧
      ∃ a b fs gs, ofStory calm = .ok a ∧ ofStory wild = .ok b ∧
        fragments a.toList = some fs ∧ fragments b.toList = some gs ∧
        fs.map Fragment.shape = gs.map Fragment.shape := by
  intro gate calm wild
  have halike : calm.Alike wild := ⟨rfl, rfl, rfl, .cons ⟨rfl, rfl⟩ .nil⟩
  have hcalm : calm.IsPlain := by decide
  have hwild : wild.IsPlain := by decide
  exact ⟨⟨halike, hcalm, hwild⟩, ofStory_alike halike hcalm hwild⟩

end Lua

end Gamebook
