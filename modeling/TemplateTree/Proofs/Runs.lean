import TemplateTree.Proofs.Lines
import TemplateTree.Proofs.Sequences

/-!
# Runs

The steps of reading a template, as a relation between readings: `Run g r es r'` says that from `r`
the lines of the entries `es` were entered and added, and that this led to `r'`. Every step leaves
less of the source, so reading a template is a run that goes up to the end of the source or to a
refusal.

`Settled` holds of every reading that a run from the start of a source leads to.
-/

set_option autoImplicit false

namespace TemplateTree

open Production

/-- Lines that are entered and added one after the other. -/
inductive Run (g : Grammar) (r : Reading) : List Entry → Reading → Prop where
  | start : Run g r [] r
  | step {es : List Entry} {said : Entry} {r₁ r₂ r₃ : Reading} (before : Run g r es r₁)
      (reads : (nextEntry g).run r₁ = (.ok (some said), r₂))
      (places : (place said).run r₂ = (.ok (), r₃)) : Run g r (es ++ [said]) r₃

/-- How the last step of a template ends: at the end of the source, in a line that cannot be read,
or in a statement that is not added. -/
inductive Ends (g : Grammar) (r : Reading) : Except Failure Unit → Reading → Prop where
  | finish {r' : Reading} (reads : (nextEntry g).run r = (.ok none, r')) : Ends g r (.ok ()) r'
  | unread {e : Failure} {r' : Reading} (reads : (nextEntry g).run r = (.error e, r')) :
      Ends g r (.error e) r'
  | unplaced {said : Entry} {e : Failure} {r₁ r' : Reading}
      (reads : (nextEntry g).run r = (.ok (some said), r₁))
      (places : (place said).run r₁ = (.error e, r')) : Ends g r (.error e) r'

/-- What a step that adds a line comes to. -/
inductive Advances (g : Grammar) (r r' : Reading) : Entry → Prop where
  | blank {line : List Char} (entered : r.Entered r' line) (indent : r'.indent = r.indent)
      (vanished : Text.isBlankLine line ∨ Text.trim line = ['|']) : Advances g r r' .blank
  | statement {line : List Char} {node : Node} {level previous : Nat} {r₁ : Reading} {o : Outline}
      (entered : r.Entered r₁ line) (stated : Stated g r r₁ line node level previous)
      (inserts : r₁.outline.insert node level previous = (.ok (), o))
      (reading : r' = { r₁ with outline := o }) : Advances g r r' (.statement node level previous)

section Steps
variable {g : Grammar} {r r₁ r₂ r' : Reading} {said : Entry} {e : Failure}

theorem finds_of_nextEntry {found : Option Entry} (h : (nextEntry g).run r = (.ok found, r')) :
    Finds g r r' found := by
  have hensures := ensures_nextEntry g r
  unfold Ensures at hensures
  rwa [h] at hensures

theorem at_of_nextEntry (h : (nextEntry g).run r = (.error e, r')) : e.At r.cursor := by
  have hensures := ensures_nextEntry g r
  unfold Ensures at hensures
  rwa [h] at hensures

/-- Adding an entry asks the outline and nothing else. -/
theorem run_place_statement {node : Node} {level previous : Nat} :
    (place (.statement node level previous)).run r =
      match r.outline.insert node level previous with
      | (.ok (), o) => (.ok (), { r with outline := o })
      | (.error (.illegal cause), o) => (.error (.refused (r.cursor.error cause)), { r with outline := o })
      | (.error .nothingOpen, o) => (.error .nothingOpen, { r with outline := o }) := by
  unfold place addStatement
  rw [run_bind]
  rcases hinsert : r.outline.insert node level previous with ⟨(cause | _) | ⟨⟩, o⟩
  all_goals
    rw [show ExceptT.run (get : Production Reading) r = (.ok r, r) from rfl]
    dsimp only
    rw [hinsert]
    rfl

theorem advances_of_run (reads : (nextEntry g).run r = (.ok (some said), r₁))
    (places : (place said).run r₁ = (.ok (), r₂)) : Advances g r r₂ said := by
  cases finds_of_nextEntry reads with
  | blank entered indent vanished =>
    obtain rfl : r₁ = r₂ := (Prod.mk.inj places).2
    exact .blank entered indent vanished
  | @statement line node level previous entered stated =>
    rw [run_place_statement] at places
    rcases hinsert : r₁.outline.insert node level previous with ⟨refusal | ⟨⟩, o⟩
    · rw [hinsert] at places
      cases refusal <;> cases (Prod.mk.inj places).1
    · rw [hinsert] at places
      exact .statement entered stated hinsert (Prod.mk.inj places).2.symm

theorem Advances.less (h : Advances g r r' said) : r'.cursor.remaining < r.cursor.remaining := by
  cases h with
  | blank entered => exact entered.less
  | statement entered _ _ reading =>
    rw [reading]
    exact entered.less

end Steps

namespace Run
variable {g : Grammar} {r r' r₁ r₂ : Reading} {es es' : List Entry} {said : Entry}

theorem trans (h : Run g r es r₁) (h' : Run g r₁ es' r₂) : Run g r (es ++ es') r₂ := by
  induction h' with
  | start => rwa [List.append_nil]
  | step _ reads places ih =>
    rw [← List.append_assoc]
    exact .step ih reads places

theorem exists_of_concat (h : Run g r (es ++ [said]) r') : ∃ r₁ r₂, Run g r es r₁ ∧
    (nextEntry g).run r₁ = (.ok (some said), r₂) ∧ (place said).run r₂ = (.ok (), r') := by
  generalize hall : es ++ [said] = all at h
  cases h with
  | start => simp at hall
  | step before reads places =>
    obtain ⟨rfl, hsaid⟩ := List.append_inj' hall rfl
    obtain rfl := (List.cons.inj hsaid).1
    exact ⟨_, _, before, reads, places⟩

theorem eq_of_nil (h : Run g r [] r') : r' = r := by
  generalize hall : ([] : List Entry) = all at h
  cases h with
  | start => rfl
  | step => simp at hall

/-- The first of the lines of a run. -/
theorem exists_of_cons (h : Run g r (said :: es) r') : ∃ r₁ r₂,
    (nextEntry g).run r = (.ok (some said), r₁) ∧ (place said).run r₁ = (.ok (), r₂) ∧
      Run g r₂ es r' := by
  induction es using List.reverseRecOn generalizing r' with
  | nil =>
    rw [← List.nil_append [said]] at h
    obtain ⟨r₁, r₂, hstart, reads, places⟩ := h.exists_of_concat
    obtain rfl := hstart.eq_of_nil
    exact ⟨r₂, r', reads, places, .start⟩
  | append_singleton es last ih =>
    rw [← List.cons_append] at h
    obtain ⟨r₁, r₂, hbefore, reads, places⟩ := h.exists_of_concat
    obtain ⟨r₃, r₄, hreads, hplaces, hrun⟩ := ih hbefore
    exact ⟨r₃, r₄, hreads, hplaces, .step hrun reads places⟩

/-- Every reading ends a run, after as many lines as can be added. -/
theorem exists_ends (g : Grammar) (r : Reading) : ∃ es r', Run g r es r' ∧
    Ends g r' ((lines g).run r).1 ((lines g).run r).2 := by
  unfold lines repeatWhile
  rw [ExceptT.run_mk]
  induction hn : r.cursor.remaining using Nat.strongRecOn generalizing r with
  | ind n ih =>
    subst hn
    unfold iterate nextStatement
    rw [run_bind]
    rcases hreads : (nextEntry g).run r with ⟨e | _ | said, r₁⟩
    · exact ⟨[], r, .start, .unread hreads⟩
    · exact ⟨[], r, .start, .finish hreads⟩
    · dsimp only
      rw [run_bind]
      rcases hplaces : (place said).run r₁ with ⟨e | ⟨⟩, r₂⟩
      · exact ⟨[], r, .start, .unplaced hreads hplaces⟩
      · have hless := (advances_of_run hreads hplaces).less
        obtain ⟨es, r', hrun, hends⟩ := ih _ hless r₂ rfl
        refine ⟨_, r', (Run.step .start hreads hplaces).trans hrun, ?_⟩
        have hstep : ∀ {x : Except Failure Unit × Reading},
            (if r₂.cursor.remaining < r.cursor.remaining then
              iterate (fun _ => nextStatement g) () r₂ else x) =
            iterate (fun _ => nextStatement g) () r₂ := if_pos hless
        rw [← hstep (x := (.ok (), r₂))] at hends
        exact hends

end Run

section Steps
variable (g : Grammar)

/-- One line that is entered and added, if it can be. -/
def step (r : Reading) : Option (Entry × Reading) :=
  match (nextEntry g).run r with
  | (.ok (some said), r₁) =>
    match (place said).run r₁ with
    | (.ok (), r₂) => some (said, r₂)
    | (.error _, _) => none
  | _ => none

/-- So many lines that are entered and added. -/
def steps : Nat → Reading → Option (List Entry × Reading)
  | 0, r => some ([], r)
  | n + 1, r => do
    let (said, r₁) ← step g r
    let (es, r') ← steps n r₁
    return (said :: es, r')

variable {g} {r r' : Reading} {said : Entry}

theorem step_eq_some_iff : step g r = some (said, r') ↔ ∃ r₁,
    (nextEntry g).run r = (.ok (some said), r₁) ∧ (place said).run r₁ = (.ok (), r') := by
  constructor
  · intro h
    unfold step at h
    split at h
    · rename_i reads
      split at h
      · rename_i places
        obtain ⟨rfl, rfl⟩ := Prod.mk.inj (Option.some.inj h)
        exact ⟨_, reads, places⟩
      · cases h
    · cases h
  · rintro ⟨r₁, reads, places⟩
    simp only [step, reads, places]

/-- A run is what so many steps come to. -/
theorem run_iff_steps {es : List Entry} : Run g r es r' ↔ steps g es.length r = some (es, r') := by
  induction es generalizing r with
  | nil =>
    constructor
    · intro h
      rw [h.eq_of_nil]
      rfl
    · intro h
      obtain ⟨-, rfl⟩ := Prod.mk.inj (Option.some.inj h)
      exact .start
  | cons said es ih =>
    constructor
    · intro h
      obtain ⟨r₁, r₂, reads, places, hrest⟩ := h.exists_of_cons
      rw [List.length_cons, steps, step_eq_some_iff.mpr ⟨r₁, reads, places⟩]
      simp only [Option.bind_eq_bind, Option.bind_some, ih.mp hrest, Option.pure_def]
    · intro h
      rw [List.length_cons, steps] at h
      obtain ⟨⟨said', r₂⟩, hstep, h⟩ := Option.bind_eq_some_iff.mp h
      obtain ⟨⟨es', s⟩, hsteps, h⟩ := Option.bind_eq_some_iff.mp h
      obtain ⟨hsaid, rfl⟩ := Prod.mk.inj (Option.some.inj h)
      obtain ⟨rfl, rfl⟩ := List.cons.inj hsaid
      obtain ⟨r₁, reads, places⟩ := step_eq_some_iff.mp hstep
      exact (Run.step .start reads places).trans (ih.mpr hsteps)

end Steps

namespace Reading

/-- The reading that the first line of a template is entered from. -/
def opening (g : Grammar) (source filename : String) (firstLine : Int) : Reading :=
  { start g source filename firstLine (.root [] (some (.of firstLine 1 0))) with
    log := [.parsing filename g.dialect.name] }

end Reading

/-- Reading a template is a run and the step that ends it. -/
theorem exists_run_readTemplate (g : Grammar) (source filename : String) (firstLine : Int) :
    ∃ es r result r', Run g (.opening g source filename firstLine) es r ∧ Ends g r result r' ∧
      (readTemplate g source filename firstLine).1 = result.map (fun _ => r'.outline.root) ∧
      (readTemplate g source filename firstLine).2.cursor = r'.cursor := by
  obtain ⟨es, r, hrun, hends⟩ := Run.exists_ends g (.opening g source filename firstLine)
  refine ⟨es, r, _, _, hrun, hends, ?_⟩
  unfold readTemplate
  rw [run_bind]
  rw [show ExceptT.run (record (.parsing filename g.dialect.name)) (Reading.start g source filename
    firstLine (.root [] (some (.of firstLine 1 0)))) =
      (.ok (), .opening g source filename firstLine) from rfl]
  dsimp only
  rw [run_bind]
  rcases (lines g).run (.opening g source filename firstLine) with ⟨e | ⟨⟩, r'⟩ <;> exact ⟨rfl, rfl⟩

/-- The statement of an entry with its level. -/
def Entry.statement? : Entry → Option (Node × Nat)
  | .blank => none
  | .statement node level _ => some (node, level)

/-- The statements of the lines that were entered. -/
def statementsOf (es : List Entry) : List (Node × Nat) := es.filterMap Entry.statement?

theorem statementsOf_concat_blank (es : List Entry) :
    statementsOf (es ++ [.blank]) = statementsOf es := by
  simp [statementsOf, Entry.statement?]

theorem statementsOf_concat_statement (es : List Entry) (node : Node) (level previous : Nat) :
    statementsOf (es ++ [.statement node level previous]) = statementsOf es ++ [(node, level)] := by
  simp [statementsOf, Entry.statement?]

open Outline Node in
/-- A reading between two lines of a source, after the lines of some entries. -/
structure Settled (g : Grammar) (source filename : String) (firstLine : Int) (es : List Entry)
    (r : Reading) : Prop where
  filename : r.cursor.filename = filename
  firstLine : r.cursor.firstLine = firstLine
  lines : r.cursor.lines = Text.Line.ofSource source.toList
  steps : StepsFrom 0 ((statementsOf es).map (·.2))
  levelled : r.outline.Levelled (statementsOf es)
  level : r.indent.level = lastLevel (statementsOf es)
  limited : r.outline.maxDepth = g.options.maxNestingDepth
  isRoot : r.outline.root.kind = .root
  wellFormed : r.outline.root.Everywhere WellFormed

open Outline Node in
/-- A statement was added at a level to what the lines of some entries left. -/
structure Placed (g : Grammar) (es : List Entry) (r r' : Reading) (node : Node) (level : Nat) :
    Prop where
  cursor : r.cursor.Onward r'.cursor
  reach : level ≤ reach (statementsOf es)
  path : r.outline.root.PathTo Accepts level
  accepts : (r.outline.root.lastAt level).Accepts
  outline : r'.outline = r.outline.withStatement node level
  levelled : r'.outline.Levelled (statementsOf es ++ [(node, level)])
  level : r'.indent.level = level
  node : node.ReadAs g r'

namespace Placed
variable {g : Grammar} {es : List Entry} {r r' : Reading} {node : Node} {level : Nat}

open Node in
/-- The statement is the last node of the outline. -/
theorem lastAt_eq (h : Placed g es r r' node level) : r'.outline.root.lastAt (level + 1) = node := by
  rw [h.outline]
  exact lastAt_addChildAt nests_accepts h.path h.accepts node

open Node in
/-- The node that the statement was added to is still above it. -/
theorem sameHead_parentNode (h : Placed g es r r' node level) :
    (r.outline.root.lastAt level).SameHead r'.outline.parentNode := by
  rw [h.outline]
  exact sameHead_lastAt_addChildAt nests_accepts h.path (Nat.le_refl level) node

end Placed

namespace Settled
variable {g : Grammar} {source filename : String} {firstLine : Int} {es : List Entry}
  {r r₁ r₂ : Reading} {said : Entry}

theorem opening : Settled g source filename firstLine [] (.opening g source filename firstLine) where
  filename := rfl
  firstLine := rfl
  lines := rfl
  steps := trivial
  levelled := .start _ _
  level := rfl
  limited := rfl
  isRoot := rfl
  wellFormed := .leaf trivial rfl

/-- The level of the next statement is within reach of those before it. -/
theorem le_reach (h : Settled g source filename firstLine es r) {line : List Char} {node : Node}
    {level previous : Nat} (hstated : Stated g r r₁ line node level previous) :
    level ≤ Outline.reach (statementsOf es) := by
  have hstart : r.outline.last.isNone → level = 0 := by
    intro hnone
    obtain ⟨_, hlevel, _⟩ | ⟨hsome, _⟩ := Indent.check_ok hstated.check
    · exact hlevel
    · simp [hsome] at hnone
  have hle : level ≤ r.indent.level + 1 := by
    obtain ⟨_, rfl, _⟩ | ⟨_, hle, _⟩ := Indent.check_ok hstated.check
    · exact Nat.zero_le _
    · exact hle
  rw [h.levelled.last] at hstart
  rw [h.level] at hle
  unfold Outline.reach Outline.lastLevel at *
  cases hlast : (statementsOf es).getLast? with
  | none =>
    rw [hlast] at hstart
    exact Nat.le_of_eq (hstart rfl)
  | some e =>
    rw [hlast] at hle
    exact hle

/-- A statement that is not added is refused for what stands above it. -/
theorem insert_error (h : Settled g source filename firstLine es r) {line : List Char} {node : Node}
    {level previous : Nat} (entered : r.Entered r₁ line)
    (stated : Stated g r r₁ line node level previous) {refusal : Outline.Refusal} {o : Outline}
    (herror : r₁.outline.insert node level previous = (.error refusal, o)) :
    ∃ cause, refusal = .illegal cause ∧ cause ≠ .nothingAbove := by
  rw [entered.outline, stated.previous, h.level] at herror
  obtain ⟨cause, hcause, _, hne, _⟩ := h.levelled.insert_error (h.le_reach stated) herror
  exact ⟨cause, hcause, hne⟩

/-- What a statement that was added left behind. -/
theorem placed (h : Settled g source filename firstLine es r) {node : Node} {level previous : Nat}
    (hadv : Advances g r r₂ (.statement node level previous)) : Placed g es r r₂ node level := by
  cases hadv with
  | @statement line _ _ _ r₁ o entered stated inserts reading =>
    have hreach := h.le_reach stated
    rw [entered.outline, stated.previous, h.level] at inserts
    obtain ⟨houtline, haccepts, hlevelled⟩ := h.levelled.concat hreach inserts
    subst reading
    exact {
      cursor := entered.cursor
      reach := hreach
      path := h.levelled.path_parent hreach
      accepts := haccepts
      outline := houtline
      levelled := hlevelled
      level := (Indent.check_levels stated.check).1
      node := ⟨stated.node.statement, stated.node.sound, stated.node.ended⟩ }

/-- One step from between two lines to between the next two. -/
theorem advance (h : Settled g source filename firstLine es r) (hadv : Advances g r r₂ said) :
    Settled g source filename firstLine (es ++ [said]) r₂ := by
  cases said with
  | blank =>
    have hsame := statementsOf_concat_blank es
    cases hadv with
    | blank entered indent =>
    refine ⟨entered.cursor.filename.trans h.filename, entered.cursor.firstLine.trans h.firstLine,
      entered.cursor.lines.trans h.lines, ?_, ?_, ?_, ?_, ?_, ?_⟩
    · rw [hsame]
      exact h.steps
    · rw [hsame, entered.outline]
      exact h.levelled
    · rw [hsame, indent]
      exact h.level
    all_goals rw [entered.outline]
    · exact h.limited
    · exact h.isRoot
    · exact h.wellFormed
  | statement node level previous =>
    have hsame := statementsOf_concat_statement es node level previous
    have hplaced := h.placed hadv
    refine ⟨hplaced.cursor.filename.trans h.filename, hplaced.cursor.firstLine.trans h.firstLine,
      hplaced.cursor.lines.trans h.lines, ?_, ?_, ?_, ?_, ?_, ?_⟩
    · rw [hsame]
      exact Outline.stepsFrom_concat.mpr ⟨h.steps, hplaced.reach⟩
    · rw [hsame]
      exact hplaced.levelled
    · rw [hsame, Outline.lastLevel_concat]
      exact hplaced.level
    all_goals rw [hplaced.outline]
    · exact h.limited
    · exact (Node.sameHead_addChildAt _ _ _).kind_eq.trans h.isRoot
    · refine Node.Everywhere.addChildAt (fun m cs hm hp => Node.WellFormed.withChildren hp hm cs)
        hplaced.path hplaced.accepts h.wellFormed ?_
      exact hplaced.node.sound.imp fun _ hm => hm.1

end Settled

/-- Whatever lines were entered and added, the reading has settled after them. -/
theorem Run.settled {g : Grammar} {source filename : String} {firstLine : Int} {es : List Entry}
    {r : Reading} (h : Run g (.opening g source filename firstLine) es r) :
    Settled g source filename firstLine es r := by
  induction h with
  | start => exact .opening
  | step _ reads places ih => exact ih.advance (advances_of_run reads places)

end TemplateTree
