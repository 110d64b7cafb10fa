import TemplateTree.Proofs.Runs

/-!
# Reading a template

What holds of every template: reading it gives a tree or a refusal at one of its lines, the levels
of its statements fit the outline they are added to, and the tree that it gives is well formed.
-/

set_option autoImplicit false

namespace TemplateTree

open Node Outline Production

namespace Text.Line

theorem length_place (offset : Nat) (raws : List (List Char)) :
    (place offset raws).length = raws.length := by
  induction raws generalizing offset with
  | nil => rfl
  | cons raw raws ih => rw [place, List.length_cons, ih, List.length_cons]

theorem length_ofSource (source : List Char) : (ofSource source).length = (splitLines source).length :=
  length_place 0 _

end Text.Line

section Ending
variable {g : Grammar} {source filename : String} {firstLine : Int} {es : List Entry}
  {r r' : Reading} {e : Failure}

/-- A place of a source: one of its lines, and a column from one on. -/
structure SyntaxError.InSource (e : SyntaxError) (source filename : String) (firstLine : Int) :
    Prop where
  filename : e.filename = filename
  firstLine_le : firstLine ≤ e.line
  le_lastLine : e.line ≤ firstLine + (Text.splitLines source.toList).length - 1
  one_le_column : 1 ≤ e.column

theorem Settled.inSource (h : Settled g source filename firstLine es r) (he : e.At r.cursor) :
    ∃ s, e = .refused s ∧ s.InSource source filename firstLine := by
  obtain ⟨s, rfl, hfile, hfirst, hlast, hcolumn⟩ := he
  rw [h.filename] at hfile
  rw [h.firstLine] at hfirst hlast
  rw [h.lines, Text.Line.length_ofSource] at hlast
  exact ⟨s, rfl, hfile, hfirst, by omega, hcolumn⟩

/-- A statement that cannot be added is refused at its line. -/
theorem Settled.at_of_place {said : Entry} {r₁ : Reading}
    (h : Settled g source filename firstLine es r)
    (reads : (nextEntry g).run r = (.ok (some said), r₁))
    (places : (place said).run r₁ = (.error e, r')) : e.At r.cursor := by
  cases finds_of_nextEntry reads with
  | blank => cases (Prod.mk.inj places).1
  | @statement line node level previous entered stated =>
    rw [run_place_statement] at places
    rcases hinsert : r₁.outline.insert node level previous with ⟨refusal | ⟨⟩, o⟩
    · obtain ⟨cause, rfl, _⟩ := h.insert_error entered stated hinsert
      rw [hinsert] at places
      obtain rfl := Except.error.inj (Prod.mk.inj places).1
      exact (entered.cursor.inside.refused_at cause).of_onward entered.cursor
    · rw [hinsert] at places
      cases (Prod.mk.inj places).1

end Ending

/-- Reading gives a root after it entered every line, or it refuses the template at one of its
lines. It fails in no other way: no cursor moves back, no character is looked for before a line, no
level is closed that is not open, and nothing is added to a node that owns no statements. -/
theorem readTemplate_root_or_refused (g : Grammar) (source filename : String) (firstLine : Int) :
    ((∃ root, (readTemplate g source filename firstLine).1 = .ok root ∧ root.kind = .root ∧
        (readTemplate g source filename firstLine).2.cursor.entered =
          (Text.splitLines source.toList).length + 1) ∨
      ∃ e, (readTemplate g source filename firstLine).1 = .error (.refused e) ∧
        e.InSource source filename firstLine) ∧
      ∀ (o o' : Outline) (statement : Node),
        o.attach statement = (.ok (), o') → o.parentNode.canNest := by
  constructor
  · obtain ⟨es, r, result, r', hrun, hends, hresult, hcursor⟩ :=
      exists_run_readTemplate g source filename firstLine
    have hsettled := hrun.settled
    have refused : ∀ e, e.At r.cursor → result = .error e →
        ∃ s, (readTemplate g source filename firstLine).1 = .error (.refused s) ∧
          s.InSource source filename firstLine := by
      intro e he heq
      subst heq
      obtain ⟨s, rfl, hs⟩ := hsettled.inSource he
      exact ⟨s, hresult, hs⟩
    cases hends with
    | finish reads =>
      cases finds_of_nextEntry reads with
      | finish _ _ outline _ entered =>
        refine Or.inl ⟨r'.outline.root, hresult, ?_, ?_⟩
        · rw [outline]
          exact hsettled.isRoot
        · rw [hcursor, entered, hsettled.lines, Text.Line.length_ofSource]
    | unread reads => exact Or.inr (refused _ (at_of_nextEntry reads) rfl)
    | unplaced reads places => exact Or.inr (refused _ (hsettled.at_of_place reads places) rfl)
  · intro o o' statement hok
    unfold attach at hok
    split at hok
    · cases (Prod.mk.inj hok).1
    · rename_i hopen
      exact Accepts.canNest hopen

/-- A doctype is added to the root of a tree. -/
theorem canNest_root_of_attach : (Outline.start (.root [] none) (.int 1)).parentNode.canNest :=
  (readTemplate_root_or_refused (.standard .haml) "%a\n  b" "t" 1).2 _ _ (.doctype .null .null none)
    rfl

/-- A tree that was read is the outline of a run that goes up to the end of the source. -/
theorem exists_run_of_readTemplate {g : Grammar} {source filename : String} {firstLine : Int}
    {root : Node} (h : (readTemplate g source filename firstLine).1 = .ok root) :
    ∃ es r r', Run g (.opening g source filename firstLine) es r ∧
      (nextEntry g).run r = (.ok none, r') ∧ r.outline.root = root := by
  obtain ⟨es, r, result, r', hrun, hends, hresult, _⟩ :=
    exists_run_readTemplate g source filename firstLine
  rw [h] at hresult
  cases hends with
  | finish reads =>
    refine ⟨es, r, r', hrun, reads, ?_⟩
    cases finds_of_nextEntry reads with
    | finish _ _ outline =>
      rw [← outline]
      exact (Except.ok.inj hresult).symm
  | unread => cases hresult
  | unplaced => cases hresult

/-- Every node of a tree that was read is well formed. -/
theorem wellFormed_of_readTemplate {g : Grammar} {source filename : String} {firstLine : Int}
    {root : Node} (h : (readTemplate g source filename firstLine).1 = .ok root) :
    root.Everywhere WellFormed := by
  obtain ⟨es, r, r', hrun, _, rfl⟩ := exists_run_of_readTemplate h
  exact hrun.settled.wellFormed

/-- A template with attributes, contents, strings, a comment and a filter. -/
theorem wellFormed_of_readTemplate_page : ∃ root,
    (readTemplate (.standard .haml)
      "%a.b\x7b:c => \"d\"\x7d= e\n#f\n  /[if g] \n  x #\x7bh\x7d\n:i\n  j\n" "t" 1).1 = .ok root ∧
      root.Everywhere WellFormed := by
  have heval : (readTemplate (.standard .haml)
      "%a.b\x7b:c => \"d\"\x7d= e\n#f\n  /[if g] \n  x #\x7bh\x7d\n:i\n  j\n" "t" 1).1.toOption.isSome := by
    decide +kernel
  rcases hread : (readTemplate (.standard .haml)
      "%a.b\x7b:c => \"d\"\x7d= e\n#f\n  /[if g] \n  x #\x7bh\x7d\n:i\n  j\n" "t" 1).1 with _ | root
  · rw [hread] at heval
    cases heval
  · exact ⟨root, rfl, wellFormed_of_readTemplate hread⟩

/-- Statements that are nested in none and fit one below the other are added up to the first that
the ones before it refuse, or all of them are added and listed as they came. The levels that the
lines of a source ask for fit in this way, with as many open ancestors as the level says and no more
than the limit, so no statement is looked for that is not there and nothing is closed that is not
open. -/
theorem levels_fit_outline :
    (∀ (maxDepth : Value) (limit : Int) (p : Option Position) (statements : List (Node × Nat))
      (count : Nat) (result : Except Refusal Unit) (o : Outline),
      maxDepth.toInt? = some limit → StepsFrom 0 (statements.map (·.2)) →
      (∀ e ∈ statements, e.1.children = []) →
      insertAll 0 statements (.start (.root [] p) maxDepth) = (count, result, o) →
      (∀ i < count, ∀ e, statements[i]? = some e →
        ¬ Refuses (.root [] p) limit (statements.take i) e.2) ∧
      ((result = .ok () ∧ count = statements.length ∧ o.root.listing 0 = statements) ∨
        ∃ e cause, result = .error (.illegal cause) ∧ cause.errorClass = .nesting ∧
          statements[count]? = some e ∧
          Refuses (.root [] p) limit (statements.take count) e.2)) ∧
    ∀ (g : Grammar) (source filename : String) (firstLine : Int) (es : List Entry) (r : Reading),
      Run g (.opening g source filename firstLine) es r →
      r.outline.depth = r.indent.level ∧
      (∀ limit, g.options.maxNestingDepth.toInt? = some limit →
        (r.outline.depth : Int) ≤ max limit 0) ∧
      ∀ node level previous r',
        (nextEntry g).run r = (.ok (some (.statement node level previous)), r') →
        previous = lastLevel (statementsOf es) ∧
        StepsFrom 0 ((statementsOf es ++ [(node, level)]).map (·.2)) ∧
        ∀ refusal o, r'.outline.insert node level previous = (.error refusal, o) →
          ∃ cause, refusal = .illegal cause ∧ cause ≠ .nothingAbove := by
  constructor
  · intro maxDepth limit p statements count result o hlimit hsteps hleaf hrun
    have hbuilt : Built (.root [] p) limit (.start (.root [] p) maxDepth) [] := .start rfl hlimit
    obtain ⟨hbefore, hend⟩ := hbuilt.insertAll_outcome hsteps hleaf hrun
    refine ⟨hbefore, hend.imp_left ?_⟩
    intro hq
    obtain ⟨hok, hcount, hall⟩ := hq
    exact ⟨hok, hcount, hall.listing⟩
  · intro g source filename firstLine es r hrun
    have hsettled := hrun.settled
    have hdepth : r.outline.depth = lastLevel (statementsOf es) :=
      hsettled.levelled.grown.atLevel.depth_eq
    refine ⟨hdepth.trans hsettled.level.symm, ?_, ?_⟩
    · intro limit hlimit
      have hwithin := hsettled.levelled.within
      rwa [hsettled.limited, hlimit, Option.getD_some, ← hdepth] at hwithin
    · intro node level previous r' reads
      cases finds_of_nextEntry reads with
      | statement entered stated =>
        refine ⟨stated.previous.trans hsettled.level,
          stepsFrom_concat.mpr ⟨hsettled.steps, hsettled.le_reach stated⟩, ?_⟩
        intro refusal o herror
        exact hsettled.insert_error entered stated herror

/-- A tag with a text nested in it is added and listed, and the first line of a source is at the
first level. -/
theorem levels_fit_outline_tag :
    (insertAll 0 [(.tag (.str "a") [] 0 none [] none, 0), (.text (.str "b") none, 1)]
        (.start (.root [] none) (.int 1))).2.2.root.listing 0 =
      [(.tag (.str "a") [] 0 none [] none, 0), (.text (.str "b") none, 1)] ∧
      ∃ node r', (nextEntry (.standard .haml)).run (.opening (.standard .haml) "= a" "t" 1) =
        (.ok (some (.statement node 0 0)), r') ∧ StepsFrom 0 [0] := by
  obtain ⟨hsequence, hlines⟩ := levels_fit_outline
  constructor
  · obtain ⟨_, ⟨_, _, hlisting⟩ | ⟨_, _, herror, _⟩⟩ := hsequence (.int 1) 1 none
      [(.tag (.str "a") [] 0 none [] none, 0), (.text (.str "b") none, 1)] 2 (.ok ()) _ rfl
      ⟨Nat.le_refl 0, Nat.le_refl 1, trivial⟩ (by simp [Node.children]) rfl
    · exact hlisting
    · cases herror
  · obtain ⟨_, _, hnext⟩ := hlines (.standard .haml) "= a" "t" 1 [] _ .start
    exact ⟨_, _, rfl, (hnext _ _ _ _ rfl).2.1⟩

/-- A limit below zero refuses no statement of the first level. -/
theorem negative_limit_not_refused :
    ¬ ∀ (limit : Int) (statements : List (Node × Nat)), StepsFrom 0 (statements.map (·.2)) →
      (∀ e ∈ statements, e.1.children = []) → (∃ e ∈ statements, limit < e.2) →
      (insertAll 0 statements (.start (.root [] none) (.int limit))).2.1 ≠ .ok () := by
  intro h
  refine h (-1) [(.text (.str "a") none, 0)] ⟨Nat.le_refl 0, trivial⟩ (by simp [Node.children])
    ⟨_, List.mem_cons_self, by decide⟩ rfl

end TemplateTree
