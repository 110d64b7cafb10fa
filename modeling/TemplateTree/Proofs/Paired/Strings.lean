import TemplateTree.Proofs.Places
import TemplateTree.Proofs.Strings

/-!
# Strings and expressions read twice

Productions for strings, interpolations and expressions agree on readings that are alike. The code
that they take over stands in the line where they say.
-/

set_option autoImplicit false

namespace TemplateTree

namespace Part

/-- The code of an insert stands in the text of the string, at its start. -/
theorem prefix_of_insert_mem_read {q : Quoting} {start : Int} {cs : List Char} {at' : Int}
    {content : List Char} (h : insert at' content ∈ (read q start cs).1) :
    ∃ k ≤ cs.length, at' = start + k ∧ content <+: cs.drop k := by
  fun_induction read q start cs with
  | case1 start cs hn n parts stop heq ih =>
    rw [heq] at ih
    have hle : n ≤ cs.length := q.run_le cs
    rcases List.mem_cons.mp h with hhead | hrest
    · cases hhead
    · obtain ⟨k, hk, rfl, hprefix⟩ := ih hrest
      rw [List.length_drop] at hk
      rw [List.drop_drop] at hprefix
      exact ⟨n + k, by omega, by push_cast; omega, hprefix⟩
  | case2 start cs hn n hs hlt parts stop heq ih =>
    rw [heq] at ih
    rcases List.mem_cons.mp h with hhead | hrest
    · cases hhead
      have htwo := Scan.two_lt_of_interpolation hs
      refine ⟨2, by omega, rfl, ?_⟩
      rw [List.drop_take]
      exact List.take_prefix _ _
    · obtain ⟨k, hk, rfl, hprefix⟩ := ih hrest
      rw [List.length_drop] at hk
      rw [List.drop_drop] at hprefix
      exact ⟨n + 1 + k, by omega, by push_cast; omega, hprefix⟩
  | case3 => simp at h

end Part

namespace Comparison
open Node Production Correspondence

variable {K : Comparison} {lost : Prop}

section Nodes
variable {c c' : Cursor} {p p' : Position} {cs : List Char}

theorem pair_ofText (cs : List Char) (hp : K.Meets p p') : K.Pair (ofText cs p) (ofText cs p') :=
  pair_text _ hp.at

theorem pair_ofExpression (cs : List Char) (hp : K.Meets p p') :
    K.Pair (ofExpression cs p) (ofExpression cs p') :=
  pair_insert _ _ _ hp.at

theorem captured_ofExpression {after : List Char} (h : K.reads (cs ++ after) p) :
    (ofExpression cs p).Captured K.reads :=
  ⟨_, p, after, rfl, rfl, by rwa [String.toList_ofList]⟩

theorem pair_ofPart (h : K.Together c c') (part : Part) :
    K.Pair (ofPart c part) (ofPart c' part) := by
  cases part with
  | text start content => exact pair_ofText content (h.meets start)
  | insert start content => exact pair_ofExpression content (h.meets start)

theorem pairs_ofParts (h : K.Together c c') (parts : List Part) :
    K.Pairs (parts.map (ofPart c)) (parts.map (ofPart c')) := by
  induction parts with
  | nil => exact .nil
  | cons part parts ih => exact ih.cons (pair_ofPart h part)

theorem captured_ofPart (h : K.Together c c') {q : Quoting} {part : Part}
    (hp : part ∈ (Part.read q c.column c.rest).1) : (ofPart c part).Captured K.reads := by
  cases part with
  | text start content => exact trivial
  | insert start content =>
    obtain ⟨k, hk, rfl, after, hafter⟩ := Part.prefix_of_insert_mem_read hp
    have hreads := h.reads_drop hk
    rw [← hafter] at hreads
    exact captured_ofExpression hreads

theorem pair_withEscaping {n n' : Node} (h : K.Pair n n') (e : Escaping) :
    K.Pair (n.withEscaping e) (n'.withEscaping e) where
  same := by
    have hsame : n.relocate K.first = n'.relocate K.second := h.same
    rw [Same, withEscaping_relocate, withEscaping_relocate, hsame]
  located := by
    have hlocated := h.located
    cases n with
    | insert content _ preserve p => exact .located_leaf hlocated.here.lies hlocated.here.verbatim rfl
    | interpolatedString parts _ p =>
      refine .located hlocated.here.lies hlocated.here.verbatim fun m hm => ?_
      exact ⟨hlocated.here.tagless m hm, hlocated.of_mem hm⟩
    | _ => exact hlocated

end Nodes

variable {r r' : Reading} (h : K.Alike r r')
include h

theorem agree_stringEnd (q : Quoting) :
    K.Agree lost (stringEnd q) (stringEnd q) r r' fun _ _ _ _ => True := by
  cases q with
  | quoted =>
    apply Agree.bind (agree_eat h _)
    intro _ _ s s' hs hq
    rcases hq with ⟨rfl, rfl, -⟩ | ⟨m, rfl, rfl, -⟩
    · exact agree_expected hs _
    · exact Agree.pure hs trivial
  | bare =>
    unfold stringEnd
    rw [agree_cursor_bind, h.cursor.isEnd]
    split
    · exact agree_expected h _
    · exact Agree.pure h trivial

theorem agree_stringBody (q : Quoting) :
    K.Agree lost (stringBody q) (stringBody q) r r' fun n n' _ _ =>
      K.Pair n n' ∧ n.kind = .interpolatedString := by
  have hsame : Part.read q r'.cursor.column r'.cursor.rest =
      Part.read q r.cursor.column r.cursor.rest := by rw [h.cursor.column, h.cursor.rest]
  unfold stringBody
  rw [agree_cursor_bind, Cursor.readLine_eq h.cursor.inside, Cursor.readLine_eq h.cursor.inside',
    hsame, agree_onLine_bind]
  apply Agree.bind (agree_advanceTo h (Part.le_stop_read _ _ _))
  intro _ _ s s' hs _
  apply Agree.bind (agree_stringEnd hs q)
  intro _ _ t t' ht _
  rw [agree_cursor_bind]
  refine Agree.pure ht ⟨?_, rfl⟩
  split
  · exact pair_interpolatedString _ (pair_ofText [] ht.cursor.position).pairs
      (by simp [ofText, Captured]) h.cursor.position.at
  · refine pair_interpolatedString _ (pairs_ofParts h.cursor _) ?_ h.cursor.position.at
    intro n hn
    obtain ⟨part, hpart, rfl⟩ := List.mem_map.mp hn
    exact captured_ofPart h.cursor hpart

theorem agree_interpolatedString (q : Quoting) :
    K.Agree lost (interpolatedString q) (interpolatedString q) r r' fun n n' _ _ =>
      K.Pair n n' ∧ n.kind = .interpolatedString := by
  cases q with
  | quoted =>
    apply Agree.bind (agree_eat h _)
    intro _ _ s s' hs hq
    rcases hq with ⟨rfl, rfl, -⟩ | ⟨m, rfl, rfl, -⟩
    · exact agree_expected_bind hs _
    · exact agree_stringBody hs _
  | bare => exact agree_stringBody h _

theorem agree_interpolation? : K.Agree lost interpolation? interpolation? r r' fun n n' s s' =>
    (n = none ∧ n' = none ∧ s = r ∧ s' = r') ∨
      ∃ m m', n = some m ∧ n' = some m' ∧ K.PairCaptured m m' := by
  unfold interpolation?
  rw [agree_cursor_bind, Cursor.interpolationAt_eq h.cursor.inside,
    Cursor.interpolationAt_eq h.cursor.inside', h.cursor.rest, h.cursor.column, agree_onLine_bind]
  cases hs : Scan.interpolation r.cursor.rest with
  | none => exact Agree.pure h (Or.inl ⟨rfl, rfl, rfl, rfl⟩)
  | some n =>
    have hlt := Scan.interpolation_lt hs
    have htwo := Scan.two_lt_of_interpolation hs
    obtain ⟨k, hk, hle, hrest⟩ := Cursor.exists_rest h.cursor.inside
    simp only [Scan.stopOf, Option.map_some]
    apply Agree.bind (agree_advanceTo h (by omega))
    intro _ _ s s' hs _
    rw [h.cursor.line]
    refine Agree.pure hs (Or.inr ⟨_, _, rfl, rfl, pair_ofExpression _ (h.cursor.meets _), ?_⟩)
    -- the code is what the line says after the brace, up to the closing one
    have hcode : Text.slice r.cursor.line (r.cursor.column + 2) (r.cursor.column + n) =
        (r.cursor.rest.drop 2).take (n - 2) := by
      have hslice := Text.slice_natCast r.cursor.line (k + 2) (k + n)
      rw [hrest, hk, List.drop_drop, show n - 2 = k + n - (k + 2) by omega]
      exact_mod_cast hslice
    have hreads := h.cursor.reads_drop (n := 2) (by omega)
    rw [← List.take_append_drop (n - 2) (r.cursor.rest.drop 2), ← hcode] at hreads
    exact captured_ofExpression hreads

/-- What an expression is and where it starts. -/
structure Expressed (K : Comparison) (e e' : List Char × Position) : Prop where
  text : e'.1 = e.1
  meets : K.Meets e.2 e'.2
  reads : ∃ after, K.reads (e.1 ++ after) e.2

omit h in
theorem Expressed.pair {e e' : List Char × Position} (he : Expressed K e e') :
    K.PairCaptured (ofExpression e.1 e.2) (ofExpression e'.1 e'.2) := by
  obtain ⟨after, hafter⟩ := he.reads
  rw [he.text]
  exact ⟨pair_ofExpression _ he.meets, captured_ofExpression hafter⟩

theorem agree_expression (delimiters : List Char) :
    K.Agree lost (expression delimiters) (expression delimiters) r r' fun e e' _ _ =>
      Expressed K e e' := by
  unfold expression
  rw [agree_cursor_bind, Cursor.expressionAt_eq h.cursor.inside,
    Cursor.expressionAt_eq h.cursor.inside', h.cursor.rest, h.cursor.column, agree_onLine_bind]
  cases hs : Scan.expression delimiters r.cursor.rest with
  | none => exact agree_expected h _
  | some n =>
    simp only [Scan.stopOf, Option.map_some]
    apply Agree.bind (agree_advanceTo h (by omega))
    intro _ _ s s' hs _
    have hcode := Cursor.slice_eq h.cursor.inside n
    refine Agree.pure hs ⟨by rw [h.cursor.line], h.cursor.position, r.cursor.rest.drop n, ?_⟩
    dsimp only
    rw [hcode, List.take_append_drop]
    exact h.cursor.reads

theorem agree_symbol : K.Agree lost symbol symbol r r' fun n n' _ _ => K.PairCaptured n n' := by
  unfold symbol
  rw [agree_cursor_bind, Cursor.inLine_eq h.cursor.inside, Cursor.inLine_eq h.cursor.inside']
  apply Agree.bind (agree_eat? h _)
  intro _ _ s s' hs hq
  rcases hq with ⟨rfl, rfl, -⟩ | ⟨m, rfl, rfl, -⟩
  · exact agree_expected hs _
  · exact Agree.pure hs ⟨pair_ofText _ h.cursor.position, trivial⟩

theorem agree_literal {text : List Char} {p : Production Node} (hp : literal? text = some p) :
    K.Agree lost p p r r' fun n n' _ _ => K.PairCaptured n n' := by
  unfold literal? at hp
  split at hp
  · obtain rfl := Option.some.inj hp
    apply (agree_interpolatedString h .quoted).imp
    rintro n n' s s' - ⟨hpair, hkind⟩
    refine ⟨hpair, ?_⟩
    cases n with
    | interpolatedString => exact trivial
    | _ => cases hkind
  · obtain rfl := Option.some.inj hp
    exact agree_symbol h
  · cases hp

omit h in
/-- A production is tried from a place further back, and reading goes on from where it was. -/
theorem agree_speculate_bind {β : Type} {start start' : Cursor} {p : Production Node}
    {Q : Node → Node → Prop} {k k' : Option (Node × Int) → Production β}
    {R : β → β → Reading → Reading → Prop} (h : K.Alike r r') (hstart : K.Together start start')
    (hp : ∀ s s', K.Alike s s' → K.Agree False p p s s' fun n n' _ _ => Q n n')
    (hk : ∀ result result' s s', K.Alike s s' → s.cursor = r.cursor →
      ((result = none ∧ result' = none) ∨ ∃ n n' reached, result = some (n, reached) ∧
        result' = some (n', reached) ∧ Q n n') → K.Agree lost (k result) (k' result') s s' R) :
    K.Agree lost
      (do
        setCursor start
        let result ← speculate p
        setCursor r.cursor
        k result)
      (do
        setCursor start'
        let result ← speculate p
        setCursor r'.cursor
        k' result) r r' R := by
  obtain ⟨a, a', s, s', hrun, hrun', hframe, hresult⟩ := agree_attempt (hp _ _ (h.move hstart))
  have hback : K.Alike { s with cursor := r.cursor } { s' with cursor := r'.cursor } :=
    ⟨⟨hframe.indent, hframe.indent', hframe.outline, hframe.outline'⟩, h.cursor⟩
  have hset : ∀ (q : Production β) (c : Cursor) (t : Reading),
      (do setCursor c; q : Production β).run t = q.run { t with cursor := c } := by
    intro q c t
    rw [run_bind]
    rfl
  unfold Agree
  rw [hset, hset, run_bind, run_bind]
  unfold speculate
  rw [run_bind, run_bind, hrun, hrun']
  dsimp only
  rcases hresult with ⟨rfl, rfl⟩ | ⟨n, n', rfl, rfl, hs, hq⟩
  · have hnone := hk none none _ _ hback rfl (Or.inl ⟨rfl, rfl⟩)
    unfold Agree at hnone
    rwa [← hset, ← hset] at hnone
  · have hcolumn := hs.cursor.column
    have hsome := hk (some (n, s.cursor.column)) (some (n', s'.cursor.column)) _ _ hback rfl
      (Or.inr ⟨n, n', s.cursor.column, rfl, by rw [hcolumn], hq⟩)
    unfold Agree at hsome
    rwa [← hset, ← hset] at hsome

theorem agree_attributeExpression (delimiters : List Char) :
    K.Agree lost (attributeExpression delimiters) (attributeExpression delimiters) r r'
      fun n n' _ _ => K.PairCaptured n n' := by
  unfold attributeExpression
  rw [agree_cursor_bind]
  apply Agree.bind (agree_expression h delimiters)
  rintro ⟨text, position⟩ ⟨text', position'⟩ s s' hs he
  have hinsert := he.pair
  obtain rfl : text' = text := he.text
  cases hl : literal? text' with
  | none =>
    simp only [hl]
    exact Agree.pure hs hinsert
  | some literal =>
    simp only [hl]
    rw [agree_cursor_bind]
    apply agree_speculate_bind hs h.cursor fun t t' ht => agree_literal ht hl
    rintro _ _ t t' ht hcursor hresult
    rcases hresult with ⟨rfl, rfl⟩ | ⟨n, n', reached, rfl, rfl, hn⟩
    · exact Agree.pure ht hinsert
    · dsimp only
      rw [hs.cursor.column]
      split
      · rename_i hle
        apply Agree.bind (agree_advanceTo ht (by rwa [hcursor]))
        intro _ _ t₂ t₂' ht₂ _
        exact Agree.pure ht₂ hn
      · exact Agree.pure ht hinsert

end Comparison

end TemplateTree
