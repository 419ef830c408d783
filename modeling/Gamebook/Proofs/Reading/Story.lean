/-
# Gamebook.Proofs.Reading.Story — what is read from a source can be written

Laying out orderly tokens gives orderly lines, and a header that follows its passage marker. So whatever
is wrong with a source, the names, tags, values and bodies that are read from it can be written: every
story that is read from any source is writable, decimals apart (`Story.writable_ofSource`).
-/
import Gamebook.Proofs.Reading.Assembly
import Gamebook.Proofs.Spelling.Story

namespace Gamebook

open Gamebook.Lexeme

/-! ## Layout -/

/-- A section whose header follows a passage marker. -/
structure Section.Orderly (s : Section) : Prop where
  header : ∃ marker : Token, marker.kind = .passageMarker ∧ Token.Orderly (marker :: s.header.tokens)
  body : ∀ l ∈ s.body, Token.Orderly l.tokens

/-- Orderly tokens are laid out in orderly lines. -/
theorem Outline.ofTokens_orderly {tokens : List Token}
    (h : Token.Orderly (tokens.filter fun t => !t.kind.isTrivia)) :
    (∀ l ∈ (ofTokens tokens).preamble, Token.Orderly l.tokens) ∧
      ∀ s ∈ (ofTokens tokens).sections, s.Orderly := by
  obtain ⟨hpreamble, hsections⟩ := ofTokens_within tokens
  refine ⟨fun l hl => h.of_infix (hpreamble l hl), fun s hs => ?_⟩
  obtain ⟨⟨marker, hkind, hheader⟩, hbody⟩ := hsections s hs
  exact ⟨⟨marker, hkind, h.of_infix hheader⟩, fun l hl => h.of_infix (hbody l hl)⟩

/-! ## Metadata -/

theorem Metadata.mem_of_mem_place {key value : String} {e : String × String} {es : List (String × String)}
    (h : e ∈ place key value es) : e = (key, value) ∨ e ∈ es := by
  induction es with
  | nil => exact .inl (List.mem_singleton.mp h)
  | cons f es ih =>
    rw [place] at h
    split at h
    · exact List.mem_cons.mp h
    · split at h
      · rcases List.mem_cons.mp h with h | h
        · exact .inl h
        · exact .inr (List.mem_cons_of_mem _ h)
      · rcases List.mem_cons.mp h with h | h
        · exact .inr (h ▸ List.mem_cons_self)
        · rcases ih h with h | h
          · exact .inl h
          · exact .inr (List.mem_cons_of_mem _ h)

namespace Preamble

/-- Title, author and metadata can be written. -/
structure Fine (p : Preamble) : Prop where
  title : ∀ t ∈ p.title, isEntryValue t.toList = true
  author : ∀ a ∈ p.author, isEntryValue a.toList = true
  keys : ∀ e ∈ p.metadata.entries, isKey e.1.toList = true ∧ e.1 ≠ "title" ∧ e.1 ≠ "author"
  values : ∀ e ∈ p.metadata.entries, isEntryValue e.2.toList = true

theorem Fine.set {p : Preamble} (h : p.Fine) {key value : String} (hkey : isKey key.toList = true)
    (hvalue : isEntryValue value.toList = true) : (p.set key value).Fine := by
  rw [Preamble.set]
  split
  · exact ⟨fun t ht => Option.some.inj ht ▸ hvalue, h.author, h.keys, h.values⟩
  · next htitle =>
    split
    · exact ⟨h.title, fun a ha => Option.some.inj ha ▸ hvalue, h.keys, h.values⟩
    · next hauthor =>
      refine ⟨h.title, h.author, fun e he => ?_, fun e he => ?_⟩
      · rcases Metadata.mem_of_mem_place he with rfl | he
        · exact ⟨hkey, htitle, hauthor⟩
        · exact h.keys e he
      · rcases Metadata.mem_of_mem_place he with rfl | he
        · exact hvalue
        · exact h.values e he

/-- The key and the value of an entry. -/
theorem readEntry_writable {stop : LineEnd} {t : Token} {ts : List Token} {key value : String}
    (hkind : t.kind = .metaKey) (hts : Token.Orderly (t :: ts))
    (h : readEntry stop t ts = .ok (key, value)) :
    isKey key.toList = true ∧ isEntryValue value.toList = true := by
  have hkey : t.content ≠ "" → isKey t.content.toList = true := by
    intro hne
    have hempty : t.content.toList ≠ [] := fun h => hne (String.toList_eq_nil_iff.mp h)
    exact isKey_iff.mpr ⟨hempty, hts.head.key hkind⟩
  cases ts with
  | nil =>
    rw [readEntry] at h
    split at h
    · cases h
    · next hne =>
      cases h
      exact ⟨hkey hne, by decide⟩
  | cons v rest =>
    rw [readEntry] at h
    split at h
    · cases h
    · next hne =>
      split at h
      · next htext =>
        obtain ⟨⟨⟩, -, hok⟩ := bind_eq_ok.mp h
        cases hok
        exact ⟨hkey hne, hts.follows.value htext hkind⟩
      · cases h

theorem Fine.line {p : Preamble} (h : p.Fine) {l : Line} (hl : Token.Orderly l.tokens) :
    (p.line l).Fine := by
  rw [Preamble.line]
  split
  · exact h
  · split
    · exact h
    · next t ts htokens =>
      rw [htokens] at hl
      rw [Preamble.readLine]
      split
      · next hkind =>
        split
        · next key value hread =>
          obtain ⟨hkey, hvalue⟩ := readEntry_writable hkind hl hread
          exact h.set hkey hvalue
        · exact ⟨h.title, h.author, h.keys, h.values⟩
      · exact h
      · exact ⟨h.title, h.author, h.keys, h.values⟩

theorem fine_ofLines {ls : List Line} (hls : ∀ l ∈ ls, Token.Orderly l.tokens) : (ofLines ls).Fine := by
  refine List.foldlRecOn ls Preamble.line (b := Preamble.empty) ?_ fun p hp l hl => hp.line (hls l hl)
  refine ⟨fun t ht => ?_, fun a ha => ?_, List.forall_mem_nil _, List.forall_mem_nil _⟩
  · cases ht
  · cases ha

end Preamble

/-! ## Passages -/

namespace Header

/-- Words that follow an opening bracket or one another are tags. -/
theorem isTag_of_orderly {t : Token} {ts : List Token} (hts : Token.Orderly (t :: ts))
    (hkind : t.kind = .opening .square ∨ t.kind = .identifier) :
    ∀ w ∈ ts.takeWhile (fun w => w.kind = .identifier), isTag w.raw.toList = true := by
  induction ts generalizing t with
  | nil =>
    intro w hw
    cases hw
  | cons u ts ih =>
    intro w hw
    rw [List.takeWhile_cons] at hw
    split at hw
    · next hname =>
      have hname : u.kind = .identifier := of_decide_eq_true hname
      rcases List.mem_cons.mp hw with rfl | hw
      · exact hts.follows.tag hname hkind
      · exact ih hts.tail (.inr hname) w hw
    · cases hw

theorem readTags_writable (stop : LineEnd) {ts : List Token} (hts : Token.Orderly ts) :
    ∀ tag ∈ (readTags stop ts).1.names, isTag tag.toList = true := by
  cases ts with
  | nil => exact List.forall_mem_nil _
  | cons t ts =>
    rw [readTags]
    split
    · next hkind =>
      intro tag htag
      obtain ⟨w, hw, rfl⟩ := List.mem_map.mp (NameSet.mem_ofList.mp htag)
      exact isTag_of_orderly hts (.inl hkind) w hw
    · exact List.forall_mem_nil _

theorem ofLine_writable {l : Line} {marker : Token} (hmarker : marker.kind = .passageMarker)
    (hl : Token.Orderly (marker :: l.tokens)) {name : String} (h : (ofLine l).name = some name) :
    isPassageName name.toList = true ∧ ∀ tag ∈ (ofLine l).tags.names, isTag tag.toList = true := by
  rw [ofLine] at h ⊢
  cases hread : l.stop.expectName .expectedPassageName l.tokens with
  | error e =>
    rw [hread] at h
    cases h
  | ok r =>
    obtain ⟨name', rest⟩ := r
    obtain ⟨u, hkind, hraw, htokens⟩ := LineEnd.expectName_eq_ok hread
    rw [htokens] at hl
    have htags := readTags_writable l.stop hl.tail.tail
    have hname := hl.follows.passage hkind (.inr hmarker)
    rw [hread] at h
    simp only at h ⊢
    split at h
    · next tags htags' =>
      rw [htags'] at htags
      cases h
      rw [← hraw]
      exact ⟨hname, htags⟩
    · next tags e htags' =>
      rw [htags'] at htags
      cases h
      rw [← hraw]
      exact ⟨hname, htags⟩

end Header

/-- The passage of an orderly section can be written. -/
theorem Section.passage?_writable {s : Section} (hs : s.Orderly) {p : Passage} (h : s.passage? = some p) :
    p.Writable Expr.Legible := by
  rw [Section.passage?, Option.map_eq_some_iff] at h
  obtain ⟨name, hname, rfl⟩ := h
  obtain ⟨marker, hmarker, hheader⟩ := hs.header
  obtain ⟨hwritten, htags⟩ := Header.ofLine_writable hmarker hheader hname
  have hbody := Assembly.block_body hs.body
  refine ⟨hwritten, htags, hbody.writable, hbody.shaped, ?_⟩
  have hheight := hbody.height
  rw [Nat.zero_add] at hheight
  exact hheight

/-! ## Stories -/

namespace Story

/-- What is read from orderly tokens can be written, decimals apart. -/
theorem writable_ofTokens {tokens : List Token}
    (h : Token.Orderly (tokens.filter fun t => !t.kind.isTrivia)) :
    (Story.ofTokens tokens).story.Writable Expr.Legible := by
  obtain ⟨hpreamble, hsections⟩ := Outline.ofTokens_orderly h
  have hfine := Preamble.fine_ofLines hpreamble
  refine ⟨hfine.title, hfine.author, hfine.keys, hfine.values, fun p hp => ?_⟩
  obtain ⟨s, hs, hpassage⟩ := List.mem_filterMap.mp hp
  exact Section.passage?_writable (hsections s hs) hpassage

/-- **What is read from any source can be written,** decimals apart. -/
theorem writable_ofSource (source : String) :
    (Story.ofTokens (Lexed.ofSource source).tokens).story.Writable Expr.Legible :=
  writable_ofTokens (Lexed.orderly_tokens source)

end Story

section

variable {Q Q' : Expr → Prop}

/-- What can be written depends on the expressions that are there. -/
theorem Node.Writable.imp {n : Node} (h : n.Writable Q) (hQ : ∀ e ∈ n.exprs, Q e → Q' e) :
    n.Writable Q' := by
  cases n with
  | choice c => exact ⟨fun g hg => hQ g (Option.mem_toList.mpr hg) (h.1 g hg), h.2⟩
  | assignment a => exact ⟨h.1, hQ _ (List.mem_singleton_self _) h.2⟩
  | conditional guard body otherwise opening closing => exact hQ _ (List.mem_singleton_self _) h
  | _ => exact h

theorem Story.Writable.imp {s : Story} (h : s.Writable Q) (hQ : ∀ e ∈ s.exprs, Q e → Q' e) :
    s.Writable Q' := by
  refine ⟨h.title, h.author, h.keys, h.values, fun p hp => ?_⟩
  obtain ⟨hname, htags, hbody, hshaped, hheight⟩ := h.passages p hp
  refine ⟨hname, htags, fun n hn => ?_, hshaped, hheight⟩
  exact (hbody n hn).imp fun e he => hQ e (Story.mem_exprs.mpr ⟨p, hp, n, hn, he⟩)

end

/-- Without decimals a story that was read can be written. -/
theorem Story.Writable.of_floatFree {s : Story} (h : s.Writable Expr.Legible) (hfree : s.FloatFree) :
    s.Writable fun e => e.isWritten = true ∧ e.Fits := by
  refine h.imp fun e he hlegible => ⟨hlegible.1 ?_, hlegible.2⟩
  obtain ⟨p, hp, n, hn, he⟩ := Story.mem_exprs.mp he
  exact hfree p hp n hn e he

end Gamebook
