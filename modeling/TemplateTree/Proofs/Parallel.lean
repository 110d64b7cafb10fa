import TemplateTree.Proofs.Composition
import TemplateTree.Proofs.OneLine

/-!
# Readings side by side

Two readings that know the same of the lines before and have the same lines ahead, at corresponding
places, go on side by side. They come to corresponding trees, or they refuse the template for the
same cause at corresponding places.
-/

set_option autoImplicit false

namespace TemplateTree

open Production

/-- The step that ends a template is the last one of its lines. -/
theorem Ends.run_lines_eq {g : Grammar} {r r' : Reading} {result : Except Failure Unit}
    (h : Ends g r result r') : (lines g).run r = (result, r') := by
  unfold lines repeatWhile
  rw [ExceptT.run_mk]
  unfold iterate nextStatement
  cases h with
  | finish reads =>
    rw [run_bind, reads]
    rfl
  | unread reads => rw [run_bind, reads]
  | unplaced reads places =>
    rw [run_bind, reads]
    dsimp only
    rw [run_bind, places]

/-- What is found is found on a line. -/
theorem exists_peekLine {g : Grammar} {r r' : Reading} {said : Entry}
    (h : (nextEntry g).run r = (.ok (some said), r')) : ∃ line, r.cursor.peekLine = some line := by
  cases finds_of_nextEntry h with
  | blank entered => exact ⟨_, entered.peek⟩
  | statement entered => exact ⟨_, entered.peek⟩

theorem Run.readTemplate_eq_of_ends {g : Grammar} {source filename : String} {firstLine : Int}
    {es : List Entry} {r r' : Reading} {result : Except Failure Unit}
    (hrun : Run g (.opening g source filename firstLine) es r) (hends : Ends g r result r') :
    (readTemplate g source filename firstLine).1 = result.map fun _ => r'.outline.root := by
  have hlines := hrun.run_lines_eq.trans hends.run_lines_eq
  unfold readTemplate
  rw [run_bind]
  rw [show ExceptT.run (record (.parsing filename g.dialect.name)) (Reading.start g source filename
    firstLine (.root [] (some (.of firstLine 1 0)))) =
      (.ok (), .opening g source filename firstLine) from rfl]
  dsimp only
  rw [run_bind, hlines]
  cases result <;> rfl

namespace Correspondence

variable {P : Correspondence} {g : Grammar} {r r' s s' : Reading} {line : List Char}

/-- Entries of the same shape at corresponding places. -/
def SameEntry (P : Correspondence) (e e' : Entry) : Prop :=
  e.relocate P.first = e'.relocate P.second

/-- The next line reads alike in two readings with the same lines ahead. -/
theorem outcomes_found (hextra : P.extra = []) (ha : P.Ahead r.cursor r'.cursor)
    (hindent : r'.indent = r.indent) (hlast : r'.outline.last = r.outline.last)
    (hp : r.cursor.peekLine = some line) :
    P.Outcomes False (fun found found' s s' => ∃ e e', found = some e ∧ found' = some e' ∧
      P.SameEntry e e' ∧ P.Together s.cursor s'.cursor ∧ s'.indent = s.indent ∧
        s.outline = r.outline ∧ s'.outline = r'.outline) (fun _ _ => True)
      ((nextEntry g).run r) ((nextEntry g).run r') := by
  have hfresh : P.StartsFresh := by
    intro l hl
    rw [hextra] at hl
    cases hl
  rcases hcheck : r.indent.check (Pattern.run Text.isIndent line) r.outline.last.isNone with ⟨x, t⟩
  have hsame : (P.knowing t t r.outline r'.outline).SameBlocks := by
    refine ⟨fun _ => rfl, fun l hl => ?_⟩
    rw [show (P.knowing t t r.outline r'.outline).extra = [] from hextra] at hl
    cases hl
  have hlost : (P.knowing t t r.outline r'.outline).Lossy → False :=
    fun hlossy => hlossy.elim (fun hne => hne hextra) fun hdiff => hdiff hsame
  have hchecks : ChecksAlike False r r' (Pattern.run Text.isIndent line) t t :=
    ⟨x, x, hcheck, by rw [hindent, hlast, hcheck], Or.inl rfl⟩
  rcases outcomes_nextEntry (g := g) ha hfresh hp (fun _ => hchecks) hlost with
    ⟨_, _, _, _, _, _, hdiff⟩ | houtcomes
  · exact absurd hsame hdiff
  refine houtcomes.imp id ?_ fun _ _ _ => trivial
  rintro _ _ s s' ⟨e, e', rfl, rfl, htogether, houtline, houtline', hsays⟩
  refine ⟨e, e', rfl, rfl, ?_, htogether, ?_, houtline, houtline'⟩
  · cases hsays with
    | blank => rfl
    | statement _ _ pair _ => exact congrArg (fun n => Entry.statement n _ _) pair.same
  · cases hsays with
    | blank hs hs' => rw [hs, hs', hindent]
    | statement hs hs' => rw [hs, hs']

/-- Readings that know the same of the lines before and have the same lines ahead. -/
structure Parallel (P : Correspondence) (r r' : Reading) : Prop where
  ahead : P.Ahead r.cursor r'.cursor
  indent : r'.indent = r.indent
  outline : r.outline.relocate P.first = r'.outline.relocate P.second

/-- What two templates come to: trees of the same shape, or refusals for the same cause, at
corresponding places. -/
inductive Concur (P : Correspondence) : Except Failure Node → Except Failure Node → Prop where
  | trees {root root' : Node} (same : P.Same root root') : Concur P (.ok root) (.ok root')
  | refused {e e' : Failure} (refused : P.Refused e e') : Concur P (.error e) (.error e')

namespace Parallel

theorem last (h : P.Parallel r r') : r'.outline.last = r.outline.last :=
  (congrArg Outline.last h.outline).symm

/-- Entries that are alike are added alike, or they are refused alike where no more levels are
closed than are open. -/
theorem outcomes_place (h : P.Parallel r r') (hc : P.Together r.cursor r'.cursor) {e e' : Entry}
    (he : P.SameEntry e e') (hopen : ∀ s, (place e).run r ≠ (.error .nothingOpen, s)) :
    P.Outcomes False (fun _ _ s s' => P.Parallel s s') (fun _ _ => True) ((place e).run r)
      ((place e').run r') := by
  rcases e with _ | ⟨node, level, previous⟩ <;> rcases e' with _ | ⟨node', level', previous'⟩
  · exact h
  · cases he
  · cases he
  obtain ⟨hnode, rfl, rfl⟩ := Entry.statement.inj he
  obtain ⟨hadded, hgrown⟩ := Outline.insert_alike h.outline hnode level previous
  rw [run_place_statement] at hopen ⊢
  rw [run_place_statement]
  rcases hi : r.outline.insert node level previous with ⟨added, o⟩
  rcases hi' : r'.outline.insert node' level previous with ⟨added', o'⟩
  rw [hi, hi'] at hadded hgrown
  obtain rfl : added' = added := hadded
  rcases added' with (cause | _) | ⟨⟩
  · exact Or.inr ⟨hc.refused cause, trivial⟩
  · rw [hi] at hopen
    exact absurd rfl (hopen _)
  · exact ⟨h.ahead, h.indent, hgrown⟩

variable (hextra : P.extra = [])
include hextra

/-- What one reading finds on the next line, the other one finds too. -/
theorem reads (h : P.Parallel r r') {e : Entry} (hreads : (nextEntry g).run r = (.ok (some e), s)) :
    ∃ e' s', (nextEntry g).run r' = (.ok (some e'), s') ∧ P.SameEntry e e' ∧
      P.Together s.cursor s'.cursor ∧ P.Parallel s s' := by
  obtain ⟨line, hp⟩ := exists_peekLine hreads
  obtain ⟨_, s', hreads', _, e', hfound, rfl, hsame, htogether, hindent, houtline, houtline'⟩ :=
    (outcomes_found (g := g) hextra h.ahead h.indent h.last hp).exists_of_ok hreads
  obtain rfl := Option.some.inj hfound
  refine ⟨e', s', hreads', hsame, htogether, htogether.toAhead, hindent, ?_⟩
  rw [houtline, houtline']
  exact h.outline

/-- One step of both readings. -/
theorem step (h : P.Parallel r r') {e : Entry} {t : Reading}
    (hreads : (nextEntry g).run r = (.ok (some e), s)) (hplaces : (place e).run s = (.ok (), t)) :
    ∃ e' s' t', (nextEntry g).run r' = (.ok (some e'), s') ∧ (place e').run s' = (.ok (), t') ∧
      P.Parallel t t' := by
  obtain ⟨e', s', hreads', hsame, htogether, hs⟩ := h.reads hextra hreads
  have hopen : ∀ u, (place e).run s ≠ (.error .nothingOpen, u) := fun u hu => by
    cases hplaces.symm.trans hu
  obtain ⟨_, t', hplaces', ht⟩ := (hs.outcomes_place htogether hsame hopen).exists_of_ok hplaces
  exact ⟨e', s', t', hreads', hplaces', ht⟩

/-- A whole run of both readings. -/
theorem run (h : P.Parallel r r') {es : List Entry} (hrun : Run g r es s) :
    ∃ es' s', Run g r' es' s' ∧ P.Parallel s s' := by
  induction hrun with
  | start => exact ⟨[], r', .start, h⟩
  | step _ hreads hplaces ih =>
    obtain ⟨es', s', hrun', hs⟩ := ih
    obtain ⟨e', t', u', hreads', hplaces', hu⟩ := hs.step hextra hreads hplaces
    exact ⟨es' ++ [e'], u', .step hrun' hreads' hplaces', hu⟩

/-- Both readings end their templates alike. -/
theorem ends (h : P.Parallel r r') {source filename : String} {firstLine : Int} {es : List Entry}
    (hset : Settled g source filename firstLine es r) {result : Except Failure Unit}
    (hends : Ends g r result s) : ∃ result' s', Ends g r' result' s' ∧
      P.Concur (result.map fun _ => s.outline.root) (result'.map fun _ => s'.outline.root) := by
  cases hends with
  | finish hreads =>
    cases finds_of_nextEntry hreads with
    | finish hp _ houtline =>
      have hp' : r'.cursor.peekLine = none := by
        rw [Cursor.peekLine_eq] at hp ⊢
        rw [h.ahead.upcoming, hextra, List.append_nil, hp]
      refine ⟨_, _, .finish (run_nextEntry_of_none hp'), .trees ?_⟩
      rw [houtline]
      exact congrArg Outline.root h.outline
  | unread hreads =>
    cases hp : r.cursor.peekLine with
    | none =>
      rw [run_nextEntry_of_none hp] at hreads
      cases hreads
    | some line =>
      obtain ⟨_, _, hreads', hrefused⟩ :=
        (outcomes_found (g := g) hextra h.ahead h.indent h.last hp).exists_of_error hreads
      exact ⟨_, _, .unread hreads', .refused hrefused⟩
  | unplaced hreads hplaces =>
    obtain ⟨e', s', hreads', hsame, htogether, hs⟩ := h.reads hextra hreads
    obtain ⟨_, rfl, -⟩ := hset.at_of_place hreads hplaces
    have hopen : ∀ u, (place _).run _ ≠ (.error .nothingOpen, u) := fun u hu => by
      cases hplaces.symm.trans hu
    obtain ⟨_, _, hplaces', hrefused⟩ :=
      (hs.outcomes_place htogether hsame hopen).exists_of_error hplaces
    exact ⟨_, _, .unplaced hreads' hplaces', .refused hrefused⟩

/-- Templates whose readings come side by side come to the same. -/
theorem concur (h : P.Parallel r r') {source source' filename filename' : String}
    {firstLine firstLine' : Int} {es es' : List Entry}
    (hrun : Run g (.opening g source filename firstLine) es r)
    (hrun' : Run g (.opening g source' filename' firstLine') es' r') :
    P.Concur (readTemplate g source filename firstLine).1
      (readTemplate g source' filename' firstLine').1 := by
  obtain ⟨rest, s, hrest, hends⟩ := Run.exists_ends g r
  obtain ⟨rest', s', hrest', hs⟩ := h.run hextra hrest
  obtain ⟨result', t', hends', hconcur⟩ := hs.ends hextra (hrun.trans hrest).settled hends
  rw [(hrun.trans hrest).readTemplate_eq_of_ends hends,
    (hrun'.trans hrest').readTemplate_eq_of_ends hends']
  exact hconcur

end Parallel

end Correspondence

end TemplateTree
