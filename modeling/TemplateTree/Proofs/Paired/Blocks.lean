import TemplateTree.Proofs.Blocks
import TemplateTree.Proofs.Paired.Strings

/-!
# Blocks read twice

Readings that are alike read the same block when the block means the same lines to both, and when
the block does not go on with the lines that only the second source has.
-/

set_option autoImplicit false

namespace TemplateTree

namespace Comparison
open Node Production Correspondence

variable {K : Comparison} {lost : Prop} {α : Type} {r r' : Reading}

/-- A block below the last statement ends at the same line for both readings. -/
structure SameBlocks (K : Comparison) : Prop where
  below (line : List Char) : K.indents.2.below 1 line = K.indents.1.below 1 line
  ends : ∀ line ∈ K.extra.head?, inBlock K.indents.1 line = false

theorem SameBlocks.inBlock_eq (hk : K.SameBlocks) : inBlock K.indents.2 = inBlock K.indents.1 := by
  funext line
  rw [inBlock, inBlock, hk.below]

/-- What the first production is known to do on its own. -/
theorem Agree.and_reads {p p' : Production α} {Q : α → α → Reading → Reading → Prop}
    {P : α → Reading → Prop} (h : K.Agree lost p p' r r' Q) (hp : Reads p r P) :
    K.Agree lost p p' r r' fun a a' s s' => Q a a' s s' ∧ P a s := by
  unfold Agree at h ⊢
  unfold Reads Ensures at hp
  generalize p.run r = x at h hp ⊢
  generalize p'.run r' = x' at h ⊢
  rcases x with ⟨e | a, s⟩ <;> rcases x' with ⟨e' | a', s'⟩
  · exact h
  · exact h
  · exact h
  · exact ⟨h.1, h.2, hp.2⟩

theorem blockLines_eq (hk : K.SameBlocks) (h : K.Alike r r') : blockLines r' = blockLines r := by
  have hlines : r'.cursor.ahead.map (·.text) = r.cursor.ahead.map (·.text) ++ K.extra :=
    h.cursor.upcoming
  have hextra : K.extra.takeWhile (inBlock K.indents.1) = [] := by
    cases he : K.extra with
    | nil => rfl
    | cons line extra =>
      have hends := hk.ends line (by rw [he]; rfl)
      rw [List.takeWhile_cons, hends]
      rfl
  rw [blockLines, blockLines, hlines, h.indent, h.indent', hk.inBlock_eq, List.takeWhile_append,
    hextra]
  split
  · rename_i hall
    rw [List.append_nil]
    exact (List.IsPrefix.eq_of_length (List.takeWhile_prefix _) hall).symm
  · rfl

theorem agree_enterBlockLine (hbelow : ∀ line, K.indents.2.below 1 line = K.indents.1.below 1 line)
    (h : K.Alike r r') {line : List Char} (hp : r.cursor.peekLine = some line) :
    K.Agree lost (enterBlockLine line) (enterBlockLine line) r r' fun b b' _ _ => b' = b := by
  unfold enterBlockLine
  have henter : K.Agree lost (discard nextLine) (discard nextLine) r r' fun _ _ _ _ => True :=
    Agree.bind (agree_nextLine h hp) fun _ _ _ _ hs _ => Agree.pure hs trivial
  apply Agree.bind henter
  intro _ _ s s' hs _
  split
  · exact Agree.pure hs rfl
  · rw [agree_get_bind, hs.indent, hs.indent']
    dsimp only
    rw [hbelow]
    apply Agree.bind (agree_modifyCursor hs (hs.cursor.skip _))
    exact fun _ _ t t' ht _ => Agree.pure ht rfl

/-- Reading the lines of a block, of which `rest` is left. -/
theorem agree_mapM_blockLine (hbelow : ∀ line, K.indents.2.below 1 line = K.indents.1.below 1 line)
    {body : Bool → Production α} {Q : α → α → Prop} {P : α → Prop} (hbody : ∀ blank s s', K.Alike s s' →
      K.Agree lost (body blank) (body blank) s s' fun a a' _ _ => Q a a')
    (hreads : ∀ blank s, s.cursor.Inside → Reads (body blank) s fun a t => P a ∧
      t.cursor.entered = s.cursor.entered)
    (h : K.Alike r r') (lines rest : List (List Char)) (hl : r.cursor.upcoming = lines ++ rest) :
    K.Agree lost (lines.mapM fun line => do body (← enterBlockLine line))
      (lines.mapM fun line => do body (← enterBlockLine line)) r r'
      fun as as' _ _ => List.Forall₂ Q as as' := by
  induction lines generalizing r r' with
  | nil =>
    rw [List.mapM_nil]
    exact Agree.pure h .nil
  | cons line lines ih =>
    have hp : r.cursor.peekLine = some line := by rw [Cursor.peekLine_eq, hl]; rfl
    have hline : K.Agree lost (do body (← enterBlockLine line))
        (do body (← enterBlockLine line)) r r' fun a a' _ _ => Q a a' := by
      apply Agree.bind (agree_enterBlockLine hbelow h hp)
      rintro blank _ s s' hs rfl
      exact hbody _ s s' hs
    rw [List.mapM_cons]
    apply Agree.bind (hline.and_reads (reads_blockLine hreads hl))
    rintro a a' s s' hs ⟨ha, -, hrest⟩
    apply Agree.bind (ih hs hrest)
    exact fun as as' t t' ht has => Agree.pure ht (.cons ha has)

theorem agree_block (hk : K.SameBlocks) {body : Bool → Production α} {Q : α → α → Prop}
    {P : α → Prop} (hbody : ∀ blank s s', K.Alike s s' →
      K.Agree lost (body blank) (body blank) s s' fun a a' _ _ => Q a a')
    (hreads : ∀ blank s, s.cursor.Inside → Reads (body blank) s fun a t => P a ∧
      t.cursor.entered = s.cursor.entered)
    (h : K.Alike r r') :
    K.Agree lost (block body) (block body) r r' fun as as' _ _ => List.Forall₂ Q as as' := by
  unfold block
  rw [agree_get_bind, blockLines_eq hk h]
  exact agree_mapM_blockLine hk.below hbody hreads h _ _ List.takeWhile_append_dropWhile.symm

section Lines
variable (h : K.Alike r r')
include h

theorem agree_restAsText : K.Agree lost restAsText restAsText r r' fun n n' _ _ =>
    K.Pair n n' ∧ n.kind = .text ∧ n.CapturedText K.reads := by
  unfold restAsText
  rw [agree_cursor_bind]
  apply Agree.bind (agree_restOfLine h)
  rintro _ _ s s' hs ⟨rfl, rfl⟩
  refine Agree.pure hs ⟨pair_ofText _ h.cursor.position, rfl, _, _, [], rfl, rfl, ?_⟩
  rw [String.toList_ofList, List.append_nil]
  exact h.cursor.reads

omit h in
/-- A text on a line of its own. -/
theorem pair_wrap_text {n n' : Node} (hn : K.Pair n n') (hkind : n.kind = .text)
    (htext : n.CapturedText K.reads) : K.Pair n.wrap n'.wrap := by
  cases n with
  | text => exact pair_wrap hn trivial htext
  | _ => cases hkind

omit h in
/-- A string on a line of its own. -/
theorem pair_wrap_string {n n' : Node} (hn : K.Pair n n') (hkind : n.kind = .interpolatedString) :
    K.Pair n.wrap n'.wrap := by
  cases n with
  | interpolatedString => exact pair_wrap hn trivial trivial
  | _ => cases hkind

theorem agree_filterLine (g : Grammar) (blank : Bool) :
    K.Agree lost (filterLine g blank) (filterLine g blank) r r' fun n n' _ _ => K.Pair n n' := by
  unfold filterLine
  split
  · rw [agree_cursor_bind]
    have hrest : K.Agree lost (discard restOfLine) (discard restOfLine) r r' fun _ _ _ _ => True :=
      Agree.bind (agree_restOfLine h) fun _ _ _ _ hs _ => Agree.pure hs trivial
    apply Agree.bind hrest
    intro _ _ s s' hs _
    refine Agree.pure hs (pair_wrap_text (pair_ofText [] h.cursor.position) rfl ?_)
    exact ⟨_, _, r.cursor.rest, rfl, rfl, h.cursor.reads⟩
  · split
    · apply Agree.bind (agree_interpolatedString h .bare)
      rintro n n' s s' hs ⟨hn, hkind⟩
      exact Agree.pure hs (pair_wrap_string hn hkind)
    · apply Agree.bind (agree_restAsText h)
      rintro n n' s s' hs ⟨hn, hkind, htext⟩
      exact Agree.pure hs (pair_wrap_text hn hkind htext)

omit h in
theorem pairs_of_forall₂ {ns ns' : List Node} (hns : List.Forall₂ K.Pair ns ns') :
    K.Pairs ns ns' := by
  induction hns with
  | nil => exact .nil
  | cons hn _ ih => exact ih.cons hn

/-- The lines of a block that are not blank. -/
def PairLine (K : Comparison) (n n' : Option Node) : Prop :=
  (n = none ∧ n' = none) ∨ ∃ m m', n = some m ∧ n' = some m' ∧ K.Pair m m'

omit h in
theorem pairs_filterMap {ns ns' : List (Option Node)} (hns : List.Forall₂ (PairLine K) ns ns') :
    K.Pairs (ns.filterMap id) (ns'.filterMap id) := by
  induction hns with
  | nil => exact .nil
  | cons hn _ ih =>
    rcases hn with ⟨rfl, rfl⟩ | ⟨m, m', rfl, rfl, hm⟩
    · exact ih
    · exact ih.cons hm

theorem agree_rawLine (blank : Bool) :
    K.Agree lost (rawLine blank) (rawLine blank) r r' fun n n' _ _ => PairLine K n n' := by
  apply Agree.bind (agree_restAsText h)
  rintro n n' s s' hs ⟨hn, hkind, htext⟩
  refine Agree.pure hs ?_
  cases blank with
  | true => exact Or.inl ⟨rfl, rfl⟩
  | false => exact Or.inr ⟨_, _, rfl, rfl, pair_wrap_text hn hkind htext⟩

theorem agree_rawLines (hk : K.SameBlocks) :
    K.Agree lost rawLines rawLines r r' fun ns ns' _ _ => K.Pairs ns ns' := by
  rw [rawLines_eq]
  apply Agree.bind (agree_block hk (fun blank s s' hs => agree_rawLine hs blank)
    (fun blank s hs => reads_rawLine hs blank) h)
  exact fun ns ns' s s' hs hns => Agree.pure hs (pairs_filterMap hns)

end Lines

end Comparison

end TemplateTree
