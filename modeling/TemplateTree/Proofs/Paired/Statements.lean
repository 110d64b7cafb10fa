import TemplateTree.Proofs.Markers
import TemplateTree.Proofs.Paired.Attributes
import TemplateTree.Proofs.Paired.Blocks
import TemplateTree.Proofs.Statements

/-!
# Statements read twice

Productions for statements agree on readings that are alike. Only a statement with a block of raw
lines depends on what the readings know of the indentation; where they know different things, such a
statement of the first reading need not be found by the second one.
-/

set_option autoImplicit false

namespace TemplateTree

namespace Node

/-- There is a filter or a silent comment in a tree. -/
def OwnsBlock (n : Node) : Prop := ¬ n.Everywhere fun m => m.ownsRawLines = false

theorem OwnsBlock.of_owns {n : Node} (h : n.ownsRawLines = true) : n.OwnsBlock :=
  fun hall => Bool.false_ne_true (hall.here.symm.trans h)

theorem OwnsBlock.of_mem {n m : Node} (h : m.OwnsBlock) (hm : m ∈ n.subnodes) : n.OwnsBlock :=
  fun hall => h (hall.of_mem hm)

end Node

namespace Comparison
open Node Production Correspondence

section Unless
variable (K : Comparison)

/-- The readings may come to different things. -/
def Lossy : Prop := K.extra ≠ [] ∨ ¬ K.SameBlocks

/-- A statement whose block the readings may end at different lines. -/
def Owned (n : Option Node) : Prop := ¬ K.SameBlocks ∧ ∃ m ∈ n, m.OwnsBlock

def AgreeUnless (p p' : Production (Option Node)) (r r' : Reading)
    (Q : Option Node → Option Node → Reading → Reading → Prop) : Prop :=
  (∃ n s, p.run r = (.ok n, s) ∧ K.Owned n) ∨ K.Agree K.Lossy p p' r r' Q

variable {K} {α : Type} {p p' : Production (Option Node)} {r r' : Reading}
  {Q R : Option Node → Option Node → Reading → Reading → Prop}

theorem Agree.bind_unless {p p' : Production α} {f f' : α → Production (Option Node)}
    {Q : α → α → Reading → Reading → Prop} (hp : K.Agree K.Lossy p p' r r' Q)
    (hf : ∀ a a' s s', K.Alike s s' → Q a a' s s' → K.AgreeUnless (f a) (f' a') s s' R) :
    K.AgreeUnless (p >>= f) (p' >>= f') r r' R := by
  exact Outcomes.bind_unless hp fun a a' s s' hs => hf a a' s s' hs.1 hs.2

theorem AgreeUnless.bind {f f' : Option Node → Production (Option Node)}
    (hp : K.AgreeUnless p p' r r' Q)
    (howned : ∀ n s, K.Owned n → (∃ m t, (f n).run s = (.ok m, t) ∧ K.Owned m) ∨
      ∃ e t, (f n).run s = (.error e, t))
    (hf : ∀ n n' s s', K.Alike s s' → Q n n' s s' → K.AgreeUnless (f n) (f' n') s s' R) :
    K.AgreeUnless (p >>= f) (p' >>= f') r r' R := by
  rcases hp with ⟨n, s, hrun, hn⟩ | hp
  · have hbind : (p >>= f).run r = (f n).run s := by rw [run_bind, hrun]
    rcases howned n s hn with ⟨m, t, hm, hown⟩ | ⟨e, t, he⟩
    · exact Or.inl ⟨m, t, hbind.trans hm, hown⟩
    · exact Or.inr (Agree.of_lost (Or.inr hn.1) (hbind.trans he))
  · exact Agree.bind_unless hp hf

theorem unless_cursor_bind {f f' : Cursor → Production (Option Node)} :
    K.AgreeUnless (cursor >>= f) (cursor >>= f') r r' R ↔
      K.AgreeUnless (f r.cursor) (f' r'.cursor) r r' R := by
  unfold AgreeUnless Agree
  rw [run_bind, run_bind]
  rfl

/-- A statement with a block that the first production finds. -/
theorem AgreeUnless.of_reads (hdiff : ¬ K.SameBlocks)
    (hp : Reads p r fun n _ => ∃ m ∈ n, m.OwnsBlock) : K.AgreeUnless p p' r r' Q := by
  unfold Reads Ensures at hp
  rcases hrun : p.run r with ⟨e | n, s⟩ <;> rw [hrun] at hp
  · exact Or.inr (Agree.of_lost (Or.inr hdiff) hrun)
  · exact Or.inl ⟨n, s, hrun, hdiff, hp.2⟩

/-- What follows both ways of a choice follows the choice. -/
theorem AgreeUnless.ite_bind {b : Prop} [Decidable b] {p p' q q' : Production α}
    {f f' : α → Production (Option Node)}
    (h : K.AgreeUnless ((if b then p else q) >>= f) ((if b then p' else q') >>= f') r r' R) :
    K.AgreeUnless (if b then p >>= f else q >>= f) (if b then p' >>= f' else q' >>= f') r r' R := by
  by_cases hb : b
  · simpa only [if_pos hb] using h
  · simpa only [if_neg hb] using h

end Unless

variable {K : Comparison} {lost : Prop} {r r' : Reading}

/-- Nothing is found and nothing was read, or a node is found. -/
def Finds (K : Comparison) (r r' : Reading) (P : Node → Prop) (n n' : Option Node)
    (s s' : Reading) : Prop :=
  (n = none ∧ n' = none ∧ s = r ∧ s' = r') ∨
    ∃ m m', n = some m ∧ n' = some m' ∧ K.Pair m m' ∧ P m

section Statements
variable (h : K.Alike r r')
include h

theorem agree_condition? : K.Agree lost condition? condition? r r' fun cs cs' _ _ =>
    cs' = cs := by
  unfold condition?
  rw [agree_cursor_bind, h.cursor.rest]
  cases hb : Scan.brackets r.cursor.rest with
  | none => exact Agree.pure h rfl
  | some n =>
    dsimp only
    rw [h.cursor.column, h.cursor.line]
    split
    · apply Agree.bind (agree_advanceTo h (by omega))
      exact fun _ _ s s' hs _ => Agree.pure hs rfl
    · exact Agree.pure h rfl

/-- The text of a comment starts where its condition could, or there is none. -/
theorem agree_commentCondition (g : Grammar) (rendered : Bool) :
    K.Agree lost (if rendered && allowsConditions g then condition? else pure none)
      (if rendered && allowsConditions g then condition? else pure none) r r'
      fun cs cs' s _ => cs' = cs ∧ (s = r ∨ s.cursor.rest = []) := by
  split
  · apply ((agree_condition? h).and_reads (reads_condition? h.cursor.inside)).imp
    rintro cs cs' s s' - ⟨hcs, hrest⟩
    rcases hrest with ⟨-, hsame⟩ | ⟨-, hnil⟩
    · exact ⟨hcs, Or.inl hsame⟩
    · exact ⟨hcs, Or.inr hnil⟩
  · exact Agree.pure h ⟨rfl, Or.inl rfl⟩

/-- The text of a comment, from a place where nothing blank is ahead. -/
theorem pairOption_commentText (htrim : Text.trimLeft r.cursor.rest = r.cursor.rest) :
    let text := Text.trim r.cursor.rest
    K.PairOption (if text.isEmpty then none else some (ofText text r.cursor.position))
      (if text.isEmpty then none else some (ofText text r'.cursor.position)) ∧
    ∀ n ∈ (if text.isEmpty then none else some (ofText text r.cursor.position)),
      n.CapturedText K.reads := by
  intro text
  have hpair : K.Pair (ofText text r.cursor.position) (ofText text r'.cursor.position) :=
    pair_ofText text h.cursor.position
  obtain ⟨after, hafter, -⟩ := Text.exists_dropRightWhile Text.isBlank (Text.trimLeft r.cursor.rest)
  have htext : r.cursor.rest = text ++ after := htrim.symm.trans hafter
  split
  · exact ⟨⟨rfl, by simp⟩, by simp⟩
  · refine ⟨hpair.option, ?_⟩
    intro n hn
    rw [← Option.some.inj hn]
    refine ⟨_, _, after, rfl, rfl, ?_⟩
    rw [String.toList_ofList, ← htext]
    exact h.cursor.reads

theorem unless_comment? (g : Grammar) : K.AgreeUnless (comment? g) (comment? g) r r'
    (K.Finds r r' fun n => n.kind = .comment) := by
  unfold comment?
  rw [unless_cursor_bind, Cursor.inLine_eq h.cursor.inside, Cursor.inLine_eq h.cursor.inside']
  apply Agree.bind_unless (agree_eat? h _)
  intro _ _ s s' hs hq
  rcases hq with ⟨rfl, rfl, -, rfl, rfl⟩ | ⟨m, rfl, rfl, hm, rfl, rfl⟩
  · exact Or.inr (Agree.pure h (Or.inl ⟨rfl, rfl, rfl, rfl⟩))
  dsimp only
  refine AgreeUnless.ite_bind (Agree.bind_unless (agree_commentCondition hs g _) ?_)
  rintro condition _ t t' ht ⟨rfl, hplace⟩
  have htrim : Text.trimLeft t.cursor.rest = t.cursor.rest := by
    rcases hplace with rfl | hnil
    · have hrest : (r.skip m.length).cursor.rest = r.cursor.rest.drop m.length :=
        Cursor.rest_skip h.cursor.inside m.length
      rw [hrest]
      exact Pattern.trimLeft_after_comment hm
    · rw [hnil]
      rfl
  obtain ⟨hcontent, hcaptured⟩ := pairOption_commentText ht htrim
  rw [unless_cursor_bind]
  apply Agree.bind_unless (agree_restOfLine ht)
  rintro _ _ u u' hu ⟨rfl, rfl⟩
  have found : ∀ {n n' : Node}, K.Pair n n' → n.kind = .comment → ∀ s s' : Reading,
      K.Finds r r' (fun n => n.kind = .comment) (some n) (some n') s s' :=
    fun hn hkind _ _ => Or.inr ⟨_, _, rfl, rfl, hn, hkind⟩
  split
  · refine Or.inr (Agree.pure hu (found ?_ rfl _ _))
    exact pair_comment _ _ hcontent hcaptured .nil (by simp) h.cursor.position.at
  · by_cases hsame : K.SameBlocks
    · refine Agree.bind_unless
        ((agree_rawLines hu hsame).and_reads (reads_rawLines hu.cursor.inside)) ?_
      rintro children children' v v' hv ⟨hchildren, hraw, -⟩
      apply Agree.bind_unless (agree_record hv)
      intro _ _ w w' hw _
      refine Or.inr (Agree.pure hw (found ?_ rfl _ _))
      exact pair_comment _ _ hcontent hcaptured hchildren (fun n hn => (hraw n hn).kind_ne)
        h.cursor.position.at
    · apply AgreeUnless.of_reads hsame
      apply Reads.bind (reads_rawLines hu.cursor.inside)
      intro children v hv _
      apply Reads.bind (reads_record hv.inside)
      intro _ w hw _
      exact Reads.pure hw.inside ⟨_, rfl, .of_owns rfl⟩

/-- What may follow a tag on its line: an insert with its marker, a string or a comment. -/
structure Inline (K : Comparison) (n n' : Node) : Prop where
  pair : K.Pair n n'
  marked : n.Marked K.reads
  kind : n.kind = .insert ∨ n.kind = .interpolatedString ∨ n.kind = .comment

omit h in
theorem Inline.wrap {n n' : Node} (hn : Inline K n n') : K.Pair n.wrap n'.wrap := by
  refine pair_wrap hn.pair hn.marked ?_
  have hkind := hn.kind
  cases n with
  | text | tag => simp [Node.kind] at hkind
  | _ => exact trivial

omit h in
theorem Inline.of_string {n n' : Node} (hn : K.Pair n n') (hkind : n.kind = .interpolatedString)
    (e : Escaping) : Inline K (n.withEscaping e) (n'.withEscaping e) := by
  refine ⟨pair_withEscaping hn e, ?_, ?_⟩
  · cases n with
    | interpolatedString => exact trivial
    | _ => cases hkind
  · cases n with
    | interpolatedString => exact Or.inr (Or.inl rfl)
    | _ => cases hkind

/-- Nothing, or what may follow a tag. -/
def PairInline (K : Comparison) (n n' : Option Node) : Prop :=
  (n = none ∧ n' = none) ∨ ∃ m m', n = some m ∧ n' = some m' ∧ Inline K m m'

theorem agree_escaped {n n' : Node} {e : Escaping}
    (hn : Inline K (n.withEscaping e) (n'.withEscaping e)) :
    K.Agree lost
      (do
        skipIndent
        return some (n.withEscaping e))
      (do
        skipIndent
        return some (n'.withEscaping e)) r r' fun n n' _ _ => PairInline K n n' := by
  apply Agree.bind (agree_skipIndent h)
  exact fun _ _ s s' hs _ => Agree.pure hs (Or.inr ⟨_, _, rfl, rfl, hn⟩)

theorem agree_plainLine : K.Agree lost
    (do
      if Text.isBlankLine (← cursor).rest then return none
      return some (← interpolatedString .bare))
    (do
      if Text.isBlankLine (← cursor).rest then return none
      return some (← interpolatedString .bare)) r r' fun n n' _ _ => PairInline K n n' := by
  rw [agree_cursor_bind, h.cursor.rest]
  split
  · exact Agree.pure h (Or.inl ⟨rfl, rfl⟩)
  · apply Agree.bind (agree_interpolatedString h .bare)
    rintro n n' s s' hs ⟨hn, hkind⟩
    refine Agree.pure hs (Or.inr ⟨n, n', rfl, rfl, hn, ?_, Or.inr (Or.inl hkind)⟩)
    cases n with
    | interpolatedString => exact trivial
    | _ => cases hkind

omit h in
theorem escapingOf_spec {modifier : List Char}
    (hm : modifier = [] ∨ modifier = ['&'] ∨ modifier = ['!']) :
    modifier = [] ∧ escapingOf modifier = .inherit ∨
      modifier = ['&'] ∧ escapingOf modifier = .enabled ∨
        modifier = ['!'] ∧ escapingOf modifier = .disabled := by
  rcases hm with rfl | rfl | rfl <;> simp [escapingOf]

/-- The code after the marker of an insert is the rest of its line. -/
theorem inline_insert {m : Match} (hm : Pattern.inlineInsert r.cursor.rest = some m)
    (hmarker : (m.groupText 1 == ['=', '=']) = false) :
    let insert (p : Position) : Node := .insert (.str (String.ofList (r.cursor.rest.drop m.length)))
      .inherit (.bool (m.groupText 1 == ['~'])) p
    Inline K ((insert r.cursor.position).withEscaping (escapingOf (m.groupText 0)))
      ((insert r'.cursor.position).withEscaping (escapingOf (m.groupText 0))) := by
  intro insert
  obtain ⟨pad, hrest, hpad, hmodifier, hkinds⟩ := Pattern.inlineInsert_spec hm
  have hpair : K.Pair (insert r.cursor.position) (insert r'.cursor.position) :=
    pair_insert _ _ _ h.cursor.position.at
  refine ⟨pair_withEscaping hpair _, ?_, Or.inl rfl⟩
  have hone : ∃ marker, m.groupText 1 = [marker] ∧
      (marker = '=' ∧ Value.bool (m.groupText 1 == ['~']) = .bool false ∨
        marker = '~' ∧ Value.bool (m.groupText 1 == ['~']) = .bool true) := by
    rcases hkinds with hk | hk | hk
    · rw [hk] at hmarker
      cases hmarker
    · exact ⟨'=', hk, Or.inl ⟨rfl, by rw [hk]; rfl⟩⟩
    · exact ⟨'~', hk, Or.inr ⟨rfl, by rw [hk]; rfl⟩⟩
  obtain ⟨marker, hk, hpreserve⟩ := hone
  refine ⟨_, _, m.groupText 0, marker, pad, rfl, rfl, escapingOf_spec hmodifier, hpreserve, hpad, ?_⟩
  have hsplit : m.groupText 0 ++ marker :: pad ++ r.cursor.rest.drop m.length = r.cursor.rest := by
    conv_rhs => rw [hrest, hk]
    simp
  rw [String.toList_ofList, hsplit]
  exact h.cursor.reads

theorem unless_inline? (g : Grammar) : K.AgreeUnless (inline? g) (inline? g) r r'
    fun n n' _ _ => PairInline K n n' := by
  unfold inline?
  rw [unless_cursor_bind, Cursor.inLine_eq h.cursor.inside, Cursor.inLine_eq h.cursor.inside']
  apply Agree.bind_unless (agree_eat? h _)
  intro _ _ s s' hs hq
  rcases hq with ⟨rfl, rfl, -, rfl, rfl⟩ | ⟨m, rfl, rfl, hm, rfl, rfl⟩
  · apply AgreeUnless.bind (unless_comment? h g)
    · rintro n t ⟨hdiff, m, hm, howns⟩
      obtain rfl : n = some m := hm
      exact Or.inl ⟨some m, t, rfl, hdiff, m, rfl, howns⟩
    · intro _ _ t t' ht hq
      rcases hq with ⟨rfl, rfl, rfl, rfl⟩ | ⟨n, n', rfl, rfl, hn, hkind⟩
      · refine Or.inr ?_
        dsimp only
        rw [agree_peekChar_bind h]
        split
        · apply Agree.bind (agree_modifyCursor h (h.cursor.skip 1))
          exact fun _ _ u u' hu _ => agree_plainLine hu
        · exact agree_plainLine h
      · refine Or.inr (Agree.pure ht (Or.inr ⟨n, n', rfl, rfl, hn, ?_, Or.inr (Or.inr hkind)⟩))
        cases n with
        | comment => exact trivial
        | _ => cases hkind
  · refine Or.inr ?_
    dsimp only
    split
    · apply Agree.bind (agree_interpolatedString hs .bare)
      rintro n n' t t' ht ⟨hn, hkind⟩
      exact agree_escaped ht (Inline.of_string hn hkind _)
    · rename_i hmarker
      have hrest : (r.skip m.length).cursor.rest = r.cursor.rest.drop m.length :=
        Cursor.rest_skip h.cursor.inside m.length
      apply Agree.bind (agree_restOfLine hs)
      rintro _ _ t t' ht ⟨rfl, rfl⟩
      rw [hrest]
      exact agree_escaped ht (inline_insert h hm (by simpa using hmarker))

theorem agree_run? : K.Agree lost run? run? r r' (K.Finds r r' fun n => n.kind = .run) := by
  unfold run?
  rw [agree_cursor_bind, Cursor.inLine_eq h.cursor.inside, Cursor.inLine_eq h.cursor.inside']
  apply Agree.bind (agree_eat? h _)
  intro _ _ s s' hs hq
  rcases hq with ⟨rfl, rfl, -, rfl, rfl⟩ | ⟨m, rfl, rfl, -⟩
  · exact Agree.pure h (Or.inl ⟨rfl, rfl, rfl, rfl⟩)
  · apply Agree.bind (agree_skipIndent hs)
    intro _ _ t t' ht _
    apply Agree.bind (agree_restOfLine ht)
    rintro _ _ u u' hu ⟨rfl, rfl⟩
    exact Agree.pure hu (Or.inr ⟨_, _, rfl, rfl, pair_run _ h.cursor.position.at, rfl⟩)

theorem agree_doctype? (d : Dialect) :
    K.Agree lost (doctype? d) (doctype? d) r r' (K.Finds r r' fun n => n.kind = .doctype) := by
  unfold doctype?
  rw [agree_cursor_bind, Cursor.inLine_eq h.cursor.inside, Cursor.inLine_eq h.cursor.inside']
  apply Agree.bind (agree_eat? h _)
  intro _ _ s s' hs hq
  rcases hq with ⟨rfl, rfl, -, rfl, rfl⟩ | ⟨m, rfl, rfl, -⟩
  · exact Agree.pure h (Or.inl ⟨rfl, rfl, rfl, rfl⟩)
  · exact Agree.pure hs (Or.inr ⟨_, _, rfl, rfl, pair_doctype _ _ h.cursor.position.at, rfl⟩)

theorem agree_textLine {wrapped wrapped' : Node → Node}
    (hw : ∀ n n', K.Pair n n' → n.kind = .interpolatedString → K.Pair (wrapped n) (wrapped' n') ∧
      (wrapped n).kind = .statement) :
    K.Agree lost (do return some (wrapped (← interpolatedString .bare)))
      (do return some (wrapped' (← interpolatedString .bare))) r r'
      fun n n' _ _ => ∃ m m', n = some m ∧ n' = some m' ∧ K.Pair m m' ∧ m.kind = .statement := by
  apply Agree.bind (agree_interpolatedString h .bare)
  rintro n n' s s' hs ⟨hn, hkind⟩
  exact Agree.pure hs ⟨_, _, rfl, rfl, hw n n' hn hkind⟩

theorem agree_literalLine? (g : Grammar) : K.Agree lost (literalLine? g) (literalLine? g) r r'
    (K.Finds r r' fun n => n.kind = .statement) := by
  have hwrap : ∀ n n' : Node, K.Pair n n' → n.kind = .interpolatedString →
      K.Pair n.wrap n'.wrap ∧ n.wrap.kind = .statement :=
    fun n n' hn hkind => ⟨pair_wrap_string hn hkind, rfl⟩
  have hpiped : ∀ n n' : Node, K.Pair n n' → n.kind = .interpolatedString →
      K.Pair (statement n r.cursor.position) (statement n' r'.cursor.position) ∧
        (statement n r.cursor.position).kind = .statement := by
    intro n n' hn hkind
    refine ⟨?_, rfl⟩
    cases n with
    | interpolatedString => exact pair_statement hn trivial trivial h.cursor.position.at
    | _ => cases hkind
  have markup : K.Agree lost
      (do
        if ← eat .markup then return some (← interpolatedString .bare).wrap
        return none)
      (do
        if ← eat .markup then return some (← interpolatedString .bare).wrap
        return none) r r' (K.Finds r r' fun n => n.kind = .statement) := by
    apply Agree.bind (agree_eat h _)
    intro _ _ s s' hs hq
    rcases hq with ⟨rfl, rfl, -, rfl, rfl⟩ | ⟨m, rfl, rfl, -⟩
    · exact Agree.pure h (Or.inl ⟨rfl, rfl, rfl, rfl⟩)
    · exact (agree_textLine hs hwrap).imp fun _ _ _ _ _ => Or.inr
  unfold literalLine?
  rw [agree_cursor_bind, Cursor.inLine_eq h.cursor.inside, Cursor.inLine_eq h.cursor.inside']
  split
  · apply Agree.bind (agree_eat h _)
    intro _ _ s s' hs hq
    rcases hq with ⟨rfl, rfl, -, rfl, rfl⟩ | ⟨m, rfl, rfl, -⟩
    · exact markup
    · exact (agree_textLine hs hpiped).imp fun _ _ _ _ _ => Or.inr
  · exact markup

theorem unless_filter? (g : Grammar) : K.AgreeUnless (filter? g) (filter? g) r r'
    (K.Finds r r' fun n => n.kind = .filter) := by
  unfold filter?
  rw [unless_cursor_bind, Cursor.inLine_eq h.cursor.inside, Cursor.inLine_eq h.cursor.inside']
  apply Agree.bind_unless (agree_eat? h _)
  intro _ _ s s' hs hq
  rcases hq with ⟨rfl, rfl, -, rfl, rfl⟩ | ⟨m, rfl, rfl, -⟩
  · exact Or.inr (Agree.pure h (Or.inl ⟨rfl, rfl, rfl, rfl⟩))
  have hreads : ∀ blank t, t.cursor.Inside → Reads (filterLine g blank) t _ :=
    fun blank t ht => reads_filterLine ht g blank
  by_cases hsame : K.SameBlocks
  · refine Or.inr (Agree.bind ((agree_block hsame
      (fun blank t t' ht => agree_filterLine ht g blank) hreads hs).and_reads
      (reads_block hs.cursor.inside hreads)) ?_)
    rintro children children' t t' ht ⟨hchildren, hlines, -⟩
    apply Agree.bind (agree_record ht)
    intro _ _ u u' hu _
    refine Agree.pure hu (Or.inr ⟨_, _, rfl, rfl, ?_, rfl⟩)
    exact pair_filter _ (pairs_of_forall₂ hchildren) (fun n hn => (hlines n hn).1.kind_ne)
      h.cursor.position.at
  · apply AgreeUnless.of_reads hsame
    apply Reads.bind (reads_block hs.cursor.inside hreads)
    intro children t ht _
    apply Reads.bind (reads_record ht.inside)
    intro _ u hu _
    exact Reads.pure hu.inside ⟨_, rfl, .of_owns rfl⟩

theorem agree_tagFlags (d : Dialect) :
    K.Agree lost (tagFlags d) (tagFlags d) r r' fun flags flags' _ _ => flags' = flags := by
  apply agree_repeatWhile (fun flags flags' => flags' = flags) (fun _ _ hflags => hflags)
  · rintro flags _ s s' hs rfl
    unfold nextFlag
    rw [agree_peekChar_bind hs]
    split
    · exact Agree.pure hs rfl
    · apply Agree.bind (agree_modifyCursor hs (hs.cursor.skip 1))
      intro _ _ t t' ht _
      split
      · exact Agree.pure ht rfl
      · exact Agree.pure ht rfl
  · exact h
  · rfl

/-- A tag that is found where its first characters are ahead. It is placed at their column, on the
line where its attributes and flags end. -/
def TagStarts (g : Grammar) (r : Reading) (n : Node) : Prop :=
  ∃ m attributes flags content t u, g.dialect.tag r.cursor.rest = some m ∧
    tagAttributes.run (r.skip m.length) = (.ok attributes, t) ∧
    (tagFlags g.dialect).run t = (.ok flags, u) ∧
    n = .tag (match m.group 0 with
      | some name => .str (String.ofList name)
      | none => g.options.implicitTagName) attributes flags content []
      (some (u.cursor.positionAt r.cursor.column))

theorem unless_tag? (g : Grammar) :
    K.AgreeUnless (tag? g) (tag? g) r r' (K.Finds r r' (TagStarts g r)) := by
  unfold tag?
  rw [unless_cursor_bind, Cursor.inLine_eq h.cursor.inside, Cursor.inLine_eq h.cursor.inside']
  apply Agree.bind_unless (agree_eat? h _)
  intro _ _ s s' hs hq
  rcases hq with ⟨rfl, rfl, -, rfl, rfl⟩ | ⟨m, rfl, rfl, hm, rfl, rfl⟩
  · exact Or.inr (Agree.pure h (Or.inl ⟨rfl, rfl, rfl, rfl⟩))
  apply Agree.bind_unless ((agree_tagAttributes Or.inl hs).and_reads
    (reads_tagAttributes (i := g.options.interpolateFilters.isTrue) hs.cursor.inside)).and_run
  rintro attributes attributes' t t' ht ⟨⟨hattributes, hkinds⟩, hrun⟩
  have htagless : ∀ n ∈ attributes, n.kind ≠ .tag := fun n hn => (hkinds n hn).1.kind_ne
  apply Agree.bind_unless (agree_tagFlags ht _).and_run
  rintro flags _ u u' hu ⟨rfl, hrunFlags⟩
  rw [unless_cursor_bind]
  have hposition : K.Meets (u.cursor.positionAt r.cursor.column)
      (u'.cursor.positionAt r'.cursor.column) := by
    rw [h.cursor.column]
    exact hu.cursor.meets _
  apply Agree.bind_unless (agree_skipIndent hu)
  intro _ _ v v' hv _
  apply AgreeUnless.bind (unless_inline? hv g)
  · rintro n w ⟨hdiff, content, hcontent, howns⟩
    obtain rfl : n = some content := hcontent
    dsimp only
    split
    · exact Or.inr ⟨_, w, rfl⟩
    · exact Or.inl ⟨_, w, rfl, hdiff, _, rfl, howns.of_mem (by simp [subnodes])⟩
  · intro _ _ w w' hw hq
    refine Or.inr ?_
    rcases hq with ⟨rfl, rfl⟩ | ⟨content, content', rfl, rfl, hcontent⟩
    · refine Agree.pure hw (Or.inr ⟨_, _, rfl, rfl, ?_, m, _, _, _, t, u, hm, hrun, hrunFlags, rfl⟩)
      exact pair_tag _ _ hattributes htagless ⟨rfl, by simp⟩ (by simp) hposition.at
    · dsimp only
      split
      · rw [agree_cursor_bind]
        exact Agree.bind (Agree.refuse (Q := fun _ _ _ _ => False) hw) fun _ _ _ _ _ hf => hf.elim
      · refine Agree.pure hw
          (Or.inr ⟨_, _, rfl, rfl, ?_, m, _, _, _, t, u, hm, hrun, hrunFlags, rfl⟩)
        refine pair_tag _ _ hattributes htagless hcontent.pair.option (fun n hn => ?_) hposition.at
        rw [← Option.some.inj hn]
        exact hcontent.marked

theorem agree_extra? (g : Grammar) : K.Agree lost (extra? g) (extra? g) r r'
    (K.Finds r r' fun n => n.kind ≠ .tag) := by
  unfold extra?
  split
  · exact Agree.pure h (Or.inl ⟨rfl, rfl, rfl, rfl⟩)
  · apply Agree.bind (agree_doctype? h .jade)
    intro _ _ s s' hs hq
    rcases hq with ⟨rfl, rfl, rfl, rfl⟩ | ⟨n, n', rfl, rfl, hn, hkind⟩
    · apply (agree_literalLine? h g).imp
      intro n n' t t' ht hq
      rcases hq with hnone | ⟨m, m', rfl, rfl, hm, hkind⟩
      · exact Or.inl hnone
      · exact Or.inr ⟨m, m', rfl, rfl, hm, by simp [hkind]⟩
    · exact Agree.pure hs (Or.inr ⟨n, n', rfl, rfl, hn, by simp [hkind]⟩)

/-- What a statement is found to be. -/
structure Stated (K : Comparison) (g : Grammar) (r : Reading) (n n' : Node) : Prop where
  pair : K.Pair n n'
  tag : n.kind = .tag → TagStarts g r n

omit h in
/-- One production of several, and the others where it finds nothing. -/
theorem unless_firstOf_cons {g : Grammar} {p : Production (Option Node)}
    {ps : List (Production (Option Node))} {P : Node → Prop}
    (hp : K.AgreeUnless p p r r' (K.Finds r r' P))
    (htag : ∀ n, P n → n.kind = .tag → TagStarts g r n)
    (hps : K.AgreeUnless (firstOf ps) (firstOf ps) r r' fun n n' _ _ =>
      (n = none ∧ n' = none) ∨ ∃ m m', n = some m ∧ n' = some m' ∧ Stated K g r m m') :
    K.AgreeUnless (firstOf (p :: ps)) (firstOf (p :: ps)) r r' fun n n' _ _ =>
      (n = none ∧ n' = none) ∨ ∃ m m', n = some m ∧ n' = some m' ∧ Stated K g r m m' := by
  apply AgreeUnless.bind hp
  · rintro n s ⟨hdiff, m, hm, howns⟩
    obtain rfl : n = some m := hm
    exact Or.inl ⟨some m, s, rfl, hdiff, m, rfl, howns⟩
  · intro _ _ s s' hs hq
    rcases hq with ⟨rfl, rfl, rfl, rfl⟩ | ⟨n, n', rfl, rfl, hn, hpn⟩
    · exact hps
    · exact Or.inr (Agree.pure hs (Or.inr ⟨n, n', rfl, rfl, hn, htag n hpn⟩))

theorem unless_inlineStatement (g : Grammar) :
    K.AgreeUnless (do return (← inline? g).map wrap) (do return (← inline? g).map wrap) r r'
      fun n n' _ _ => (n = none ∧ n' = none) ∨
        ∃ m m', n = some m ∧ n' = some m' ∧ Stated K g r m m' := by
  apply AgreeUnless.bind (unless_inline? h g)
  · rintro n s ⟨hdiff, m, hm, howns⟩
    obtain rfl : n = some m := hm
    exact Or.inl ⟨some m.wrap, s, rfl, hdiff, m.wrap, rfl, howns.of_mem (by simp [wrap, subnodes])⟩
  · intro _ _ s s' hs hq
    rcases hq with ⟨rfl, rfl⟩ | ⟨n, n', rfl, rfl, hn⟩
    · exact Or.inr (Agree.pure hs (Or.inl ⟨rfl, rfl⟩))
    · refine Or.inr (Agree.pure hs (Or.inr ⟨_, _, rfl, rfl, hn.wrap, fun hkind => ?_⟩))
      cases hkind

theorem unless_statement? (g : Grammar) : K.AgreeUnless (statement? g) (statement? g) r r'
    fun n n' _ _ => (n = none ∧ n' = none) ∨
      ∃ m m', n = some m ∧ n' = some m' ∧ Stated K g r m m' := by
  have other : ∀ {k : Kind}, k ≠ .tag → ∀ n : Node, n.kind = k → n.kind = .tag → TagStarts g r n :=
    fun hk n hn htag => absurd (hn.symm.trans htag) hk
  unfold statement?
  refine unless_firstOf_cons (Or.inr (agree_extra? h g)) (fun n hn htag => absurd htag hn) ?_
  refine unless_firstOf_cons (unless_tag? h g) (fun n hn _ => hn) ?_
  refine unless_firstOf_cons (unless_filter? h g) (other (by decide)) ?_
  refine unless_firstOf_cons (unless_comment? h g) (other (by decide)) ?_
  refine unless_firstOf_cons (Or.inr (agree_run? h)) (other (by decide)) ?_
  refine unless_firstOf_cons (Or.inr (agree_doctype? h _)) (other (by decide)) ?_
  apply AgreeUnless.bind (unless_inlineStatement h g)
  · rintro n s ⟨hdiff, m, hm, howns⟩
    obtain rfl : n = some m := hm
    exact Or.inl ⟨some m, s, rfl, hdiff, m, rfl, howns⟩
  · intro _ _ s s' hs hq
    rcases hq with ⟨rfl, rfl⟩ | ⟨n, n', rfl, rfl, hn⟩
    · exact Or.inr (Agree.pure hs (Or.inl ⟨rfl, rfl⟩))
    · exact Or.inr (Agree.pure hs (Or.inr ⟨n, n', rfl, rfl, hn⟩))

end Statements

end Comparison

end TemplateTree
