import TemplateTree.Proofs.Appended
import TemplateTree.Proofs.Parallel

/-!
# Nesting limits

The limit on nested levels is asked when a level is opened, and nowhere else. Of two limits the
larger one takes every template that the smaller one takes. The smaller one takes those of them whose
statements all lie within it, and refuses the others for their nesting.
-/

set_option autoImplicit false

namespace TemplateTree

def Grammar.withLimit (limit : Value) (g : Grammar) : Grammar :=
  { g with options := { g.options with maxNestingDepth := limit } }

namespace Outline

def withLimit (limit : Value) (o : Outline) : Outline := { o with maxDepth := limit }

section Insert
variable {o : Outline} {statement : Node} {level previous : Nat} {limit : Value}

theorem AtLevel.withLimit (h : o.AtLevel previous) (limit : Value) :
    (o.withLimit limit).AtLevel previous := ⟨h.ancestors, h.parent, h.last⟩

theorem AtLevel.hasRoom_iff (h : o.AtLevel level) {d : Int} (hd : o.maxDepth.toInt? = some d) :
    o.hasRoom ↔ (level : Int) < d := by
  rw [hasRoom, hd, h.depth_eq]
  exact decide_eq_true_iff

/-- Where both limits have room for the level, a statement is added or refused whichever it is. -/
theorem insert_withLimit (h : o.AtLevel previous) (hle : level ≤ previous + 1)
    (hfirst : o.last = none → level = 0)
    (hroom : previous < level → o.hasRoom ∧ (o.withLimit limit).hasRoom) :
    (o.withLimit limit).insert statement level previous =
      ((o.insert statement level previous).1, (o.insert statement level previous).2.withLimit limit) := by
  have hopen : ∀ q : Outline, (previous < level → q.hasRoom) →
      ¬ (previous < level ∧ q.hasRoom = false) := by
    rintro q hq ⟨hlt, hfull⟩
    exact Bool.false_ne_true (hfull.symm.trans (hq hlt))
  rw [insert_eq h hle hfirst, insert_eq (h.withLimit limit) hle hfirst,
    if_neg (hopen o fun hlt => (hroom hlt).1),
    if_neg (hopen (o.withLimit limit) fun hlt => (hroom hlt).2), attach_eq, attach_eq]
  rw [show (o.withLimit limit).root = o.root from rfl]
  cases refusal? (o.root.lastAt level) <;> rfl

end Insert

section Levelled
variable {o o' : Outline} {done : List (Node × Nat)} {statement : Node} {level : Nat}
  {limit : Value} {d d' : Int}

/-- A larger limit takes what was taken. -/
theorem Levelled.insert_of_le (h : o.Levelled done) (hreach : level ≤ reach done)
    (hd : o.maxDepth.toInt? = some d) (hd' : limit.toInt? = some d') (hle : d ≤ d')
    (hok : o.insert statement level (lastLevel done) = (.ok (), o')) :
    (o.withLimit limit).insert statement level (lastLevel done) = (.ok (), o'.withLimit limit) := by
  have hat := h.grown.atLevel
  have hsucc := Nat.le_trans hreach reach_le
  have hfirst := h.level_eq_zero hreach
  obtain ⟨hroom, -, -⟩ := insert_ok hat hsucc hfirst hok
  have hrooms : lastLevel done < level → o.hasRoom ∧ (o.withLimit limit).hasRoom := by
    intro hlt
    have hone := hroom.resolve_left (Nat.not_le.mpr hlt)
    have hless := (hat.hasRoom_iff hd).mp hone
    exact ⟨hone, ((hat.withLimit limit).hasRoom_iff hd').mpr (Int.lt_of_lt_of_le hless hle)⟩
  rw [insert_withLimit hat hsucc hfirst hrooms, hok]

/-- A smaller limit takes what a larger one took, when it lies within, and else refuses its level. -/
theorem Levelled.insert_of_withLimit (h : o.Levelled done) (hreach : level ≤ reach done)
    (hd : o.maxDepth.toInt? = some d)
    (hok : (o.withLimit limit).insert statement level (lastLevel done) = (.ok (), o')) :
    (∃ o₁, o.insert statement level (lastLevel done) = (.ok (), o₁) ∧ o' = o₁.withLimit limit) ∨
      d < level ∧ o.insert statement level (lastLevel done) =
        (.error (.illegal (.tooManyLevels o.maxDepth)), o) := by
  have hat := h.grown.atLevel
  have hsucc := Nat.le_trans hreach reach_le
  have hfirst := h.level_eq_zero hreach
  obtain ⟨hroom', -, -⟩ := insert_ok (hat.withLimit limit) hsucc hfirst hok
  by_cases hdeep : lastLevel done < level ∧ o.hasRoom = false
  · refine Or.inr ⟨?_, ?_⟩
    · have hnot : ¬ (lastLevel done : Int) < d := by
        intro hless
        rw [(hat.hasRoom_iff hd).mpr hless] at hdeep
        exact Bool.false_ne_true hdeep.2.symm
      omega
    · rw [insert_eq hat hsucc hfirst, if_pos hdeep]
  · have hrooms : lastLevel done < level → o.hasRoom ∧ (o.withLimit limit).hasRoom := by
      intro hlt
      exact ⟨by simpa [hlt] using hdeep, hroom'.resolve_left (Nat.not_le.mpr hlt)⟩
    rw [insert_withLimit hat hsucc hfirst hrooms] at hok
    obtain ⟨hadded, rfl⟩ := Prod.mk.inj hok
    exact Or.inl ⟨_, Prod.ext hadded rfl, rfl⟩

end Levelled

end Outline

open Production Correspondence Outline

theorem Entry.relocate_id (e : Entry) : e.relocate id = e := by
  cases e with
  | blank => rfl
  | statement node level previous => rw [Entry.relocate, Node.relocate_id]

/-- Readings of the same lines that differ in their limits. -/
structure Limited (limit : Value) (r r' : Reading) : Prop where
  ahead : (moved id []).Ahead r.cursor r'.cursor
  indent : r'.indent = r.indent
  outline : r'.outline = r.outline.withLimit limit

namespace Limited
variable {g : Grammar} {limit limit' : Value} {r r' s s' t t' : Reading} {said : Entry}

theorem opening (g : Grammar) (limit limit' : Value) (source filename : String) (firstLine : Int) :
    Limited limit' (.opening (g.withLimit limit) source filename firstLine)
      (.opening (g.withLimit limit') source filename firstLine) where
  ahead := ahead_moved rfl (List.append_nil _).symm fun _ line hline => ⟨line, hline, fun _ => rfl⟩
  indent := rfl
  outline := rfl

theorem upcoming (h : Limited limit r r') : r'.cursor.upcoming = r.cursor.upcoming :=
  h.ahead.upcoming.trans (List.append_nil _)

theorem root (h : Limited limit r r') : r'.outline.root = r.outline.root := by
  rw [h.outline]
  rfl

/-- Both readings find the same on the next line. -/
theorem outcomes (h : Limited limit r r') {line : List Char} (hp : r.cursor.peekLine = some line) :
    (moved id []).Outcomes False (fun found found' s s' => found' = found ∧ Limited limit s s')
      (fun _ _ => True) ((nextEntry g).run r) ((nextEntry g).run r') := by
  have hlast : r'.outline.last = r.outline.last := by
    rw [h.outline]
    rfl
  refine (outcomes_found (g := g) rfl h.ahead h.indent hlast hp).imp id ?_ fun _ _ _ => trivial
  rintro _ _ s s' ⟨e, e', rfl, rfl, hsame, htogether, hindent, houtline, houtline'⟩
  have hentry : e.relocate id = e'.relocate id := hsame
  rw [Entry.relocate_id, Entry.relocate_id] at hentry
  refine ⟨by rw [hentry], htogether.toAhead, hindent, ?_⟩
  rw [houtline, houtline']
  exact h.outline

section Steps
variable {source filename : String} {firstLine : Int} {es : List Entry} {d d' : Int}

/-- A larger limit takes the lines that the smaller one takes. -/
theorem step (h : Limited limit' r r')
    (hset : Settled (g.withLimit limit) source filename firstLine es r)
    (hd : limit.toInt? = some d) (hd' : limit'.toInt? = some d') (hle : d ≤ d')
    (reads : (nextEntry g).run r = (.ok (some said), s))
    (places : (place said).run s = (.ok (), t)) :
    ∃ s' t', (nextEntry g).run r' = (.ok (some said), s') ∧ (place said).run s' = (.ok (), t') ∧
      Limited limit' t t' := by
  obtain ⟨line, hp⟩ := exists_peekLine reads
  obtain ⟨_, s', reads', rfl, hs⟩ := (h.outcomes hp).exists_of_ok reads
  cases said with
  | blank =>
    obtain rfl : s = t := (Prod.mk.inj places).2
    exact ⟨s', s', reads', rfl, hs⟩
  | statement node level previous =>
    cases finds_of_nextEntry (g := g.withLimit limit) reads with
    | statement entered stated =>
      obtain ⟨o, hinsert, rfl⟩ := place_statement_iff.mp places
      rw [entered.outline, stated.previous, hset.level] at hinsert
      have hmax : r.outline.maxDepth.toInt? = some d := by rw [hset.limited, ← hd]; rfl
      have hinsert' := hset.levelled.insert_of_le (hset.le_reach stated) hmax hd' hle hinsert
      rw [← entered.outline, ← hs.outline, ← hset.level, ← stated.previous] at hinsert'
      exact ⟨s', _, reads', place_statement_iff.mpr ⟨_, hinsert', rfl⟩, hs.ahead, hs.indent, rfl⟩

/-- A line that is taken by the larger limit is taken by the smaller one, or it lies too deep. -/
theorem step_back (h : Limited limit' r r')
    (hset : Settled (g.withLimit limit) source filename firstLine es r)
    (hd : limit.toInt? = some d)
    (reads' : (nextEntry g).run r' = (.ok (some said), s'))
    (places' : (place said).run s' = (.ok (), t')) :
    ∃ s, (nextEntry g).run r = (.ok (some said), s) ∧
      ((∃ t, (place said).run s = (.ok (), t) ∧ Limited limit' t t') ∨
        (∃ node level previous, said = .statement node level previous ∧ d < level) ∧
          ∃ e t, (place said).run s = (.error (.refused e), t) ∧ e.errorClass = .nesting) := by
  have hpeek : ∃ line, r.cursor.peekLine = some line := by
    obtain ⟨line, hp'⟩ := exists_peekLine reads'
    rw [Cursor.peekLine_eq, h.upcoming, ← Cursor.peekLine_eq] at hp'
    exact ⟨line, hp'⟩
  obtain ⟨line, hp⟩ := hpeek
  obtain ⟨_, s, reads, rfl, hs⟩ := (h.outcomes hp).exists_of_ok_second reads'
  refine ⟨s, reads, ?_⟩
  cases said with
  | blank =>
    obtain rfl : s' = t' := (Prod.mk.inj places').2
    exact Or.inl ⟨s, rfl, hs⟩
  | statement node level previous =>
    cases finds_of_nextEntry (g := g.withLimit limit) reads with
    | statement entered stated =>
      obtain ⟨o', hinsert', rfl⟩ := place_statement_iff.mp places'
      rw [hs.outline, entered.outline, stated.previous, hset.level] at hinsert'
      have hmax : r.outline.maxDepth.toInt? = some d := by rw [hset.limited, ← hd]; rfl
      have hplace : (place (.statement node level previous)).run s = _ := run_place_statement
      rw [entered.outline, stated.previous, hset.level] at hplace
      rcases hset.levelled.insert_of_withLimit (hset.le_reach stated) hmax hinsert' with
        ⟨o, hinsert, rfl⟩ | ⟨hdeep, hinsert⟩
      · rw [hinsert] at hplace
        rw [stated.previous, hset.level]
        exact Or.inl ⟨_, hplace, hs.ahead, hs.indent, rfl⟩
      · rw [hinsert] at hplace
        refine Or.inr ⟨⟨node, level, previous, rfl, hdeep⟩, ?_⟩
        rw [stated.previous, hset.level]
        exact ⟨_, _, hplace, rfl⟩

end Steps

end Limited

/-- Reading a template adds a statement so many levels below the top level of the tree. -/
def Adds (g : Grammar) (source filename : String) (firstLine : Int) (node : Node) (depth : Nat) :
    Prop :=
  ∃ es previous r, Run g (.opening g source filename firstLine)
    (es ++ [.statement node depth previous]) r ∧
    r.outline.root.PathTo Node.Accepts (depth + 1) ∧ r.outline.root.lastAt (depth + 1) = node

section Templates
variable {g : Grammar} {limit limit' : Value} {source filename : String} {firstLine : Int}
  {es : List Entry} {r r' : Reading} {node : Node} {level previous : Nat} {d d' : Int}

/-- A statement is added at its level. -/
theorem adds_of_run (h : Run g (.opening g source filename firstLine)
    (es ++ [.statement node level previous]) r) : Adds g source filename firstLine node level := by
  obtain ⟨r₁, r₂, before, reads, places⟩ := h.exists_of_concat
  have hplaced := before.settled.placed (advances_of_run reads places)
  refine ⟨es, previous, r, h, ?_, hplaced.lastAt_eq⟩
  apply hplaced.levelled.grown.path
  rw [hplaced.outline]
  rfl

theorem Run.withLimit_of_le (hd : limit.toInt? = some d) (hd' : limit'.toInt? = some d')
    (hle : d ≤ d')
    (h : Run (g.withLimit limit) (.opening (g.withLimit limit) source filename firstLine) es r) :
    ∃ r', Run (g.withLimit limit') (.opening (g.withLimit limit') source filename firstLine) es r' ∧
      Limited limit' r r' := by
  induction h with
  | start => exact ⟨_, .start, .opening g limit limit' source filename firstLine⟩
  | step before reads places ih =>
    obtain ⟨r', hrun', hlimited⟩ := ih
    obtain ⟨s', t', reads', places', ht⟩ :=
      hlimited.step before.settled hd hd' hle reads places
    exact ⟨t', .step hrun' reads' places', ht⟩

/-- A run under the larger limit is one under the smaller limit, or a statement in it lies deeper
than the smaller limit, which refuses the template. -/
theorem Run.of_withLimit (hd : limit.toInt? = some d)
    (h : Run (g.withLimit limit') (.opening (g.withLimit limit') source filename firstLine) es r') :
    (∃ r, Run (g.withLimit limit) (.opening (g.withLimit limit) source filename firstLine) es r ∧
        Limited limit' r r') ∨
      (∃ node depth, Adds (g.withLimit limit') source filename firstLine node depth ∧ d < depth) ∧
        ∃ e, (readTemplate (g.withLimit limit) source filename firstLine).1 = .error (.refused e) ∧
          e.errorClass = .nesting := by
  induction h with
  | start => exact Or.inl ⟨_, .start, .opening g limit limit' source filename firstLine⟩
  | step before reads' places' ih =>
    rcases ih with ⟨r, hrun, hlimited⟩ | hrefused
    · obtain ⟨s, reads, ⟨t, places, ht⟩ | ⟨⟨node, level, previous, rfl, hdeep⟩, e, t, places, he⟩⟩ :=
        hlimited.step_back hrun.settled hd reads' places'
      · exact Or.inl ⟨t, .step hrun reads places, ht⟩
      · refine Or.inr ⟨⟨node, level, adds_of_run (.step before reads' places'), hdeep⟩, e, ?_, he⟩
        exact hrun.readTemplate_eq_of_ends (.unplaced reads places)
    · exact Or.inr hrefused

theorem Run.readTemplate_of_upcoming (h : Run g (.opening g source filename firstLine) es r)
    (hend : r.cursor.upcoming = []) :
    (readTemplate g source filename firstLine).1 = .ok r.outline.root := by
  refine (h.readTemplate_eq ?_).1
  rw [Cursor.peekLine_eq, hend]
  rfl

/-- Two limits, of which the first is the smaller one. A template that the first one takes is taken
by the second one too and has the same tree, and no statement in it lies deeper than the first limit.
Every other template that the second one takes is refused by the first one for its nesting. -/
theorem readTemplate_withLimit_iff (hd : limit.toInt? = some d) (hd' : limit'.toInt? = some d')
    (hpos : 0 ≤ d) (hle : d ≤ d') (g : Grammar) (source filename : String) (firstLine : Int) :
    (∀ root, (readTemplate (g.withLimit limit) source filename firstLine).1 = .ok root ↔
      (readTemplate (g.withLimit limit') source filename firstLine).1 = .ok root ∧
        ∀ node depth, Adds (g.withLimit limit') source filename firstLine node depth →
          (depth : Int) ≤ d) ∧
    ∀ root failure, (readTemplate (g.withLimit limit') source filename firstLine).1 = .ok root →
      (readTemplate (g.withLimit limit) source filename firstLine).1 = .error failure →
      ∃ e, failure = .refused e ∧ e.errorClass = .nesting := by
  refine ⟨fun root => ⟨fun h => ⟨?_, ?_⟩, ?_⟩, ?_⟩
  · obtain ⟨es, r, hrun, hend, rfl, -⟩ := exists_run_to_end h
    obtain ⟨r', hrun', hlimited⟩ := hrun.withLimit_of_le hd hd' hle
    rw [hrun'.readTemplate_of_upcoming (hlimited.upcoming.trans hend), hlimited.root]
  · rintro node depth ⟨es, previous, r', hrun', -, -⟩
    rcases hrun'.of_withLimit hd with ⟨r, hrun, -⟩ | ⟨-, e, hrefused, -⟩
    · have hwithin := hrun.settled.levelled.within
      have hmax : r.outline.maxDepth.toInt? = some d := by rw [hrun.settled.limited, ← hd]; rfl
      rw [statementsOf_concat_statement, lastLevel_concat, hmax, Option.getD_some] at hwithin
      omega
    · cases h.symm.trans hrefused
  · rintro ⟨h, hshallow⟩
    obtain ⟨es, r', hrun', hend, rfl, -⟩ := exists_run_to_end h
    rcases hrun'.of_withLimit hd with ⟨r, hrun, hlimited⟩ | ⟨⟨node, depth, hadds, hdeep⟩, -⟩
    · rw [hrun.readTemplate_of_upcoming (hlimited.upcoming.symm.trans hend), hlimited.root]
    · have hdepth := hshallow node depth hadds
      omega
  · intro root failure h herror
    obtain ⟨es, r', hrun', hend, rfl, -⟩ := exists_run_to_end h
    rcases hrun'.of_withLimit hd with ⟨r, hrun, hlimited⟩ | ⟨-, e, hrefused, he⟩
    · have hok := hrun.readTemplate_of_upcoming (hlimited.upcoming.symm.trans hend)
      cases hok.symm.trans herror
    · obtain rfl := Except.error.inj (herror.symm.trans hrefused)
      exact ⟨e, rfl, he⟩

/-- A text two levels below the first tag, with a limit of one level and of two. -/
theorem readTemplate_withLimit_text : (Value.int 1).toInt? = some 1 ∧ (Value.int 2).toInt? = some 2 ∧
    (∃ root failure e,
      (readTemplate ((Grammar.standard .haml).withLimit (.int 2)) "%a\n  %b\n    c\n" "t" 1).1 =
        .ok root ∧
      (readTemplate ((Grammar.standard .haml).withLimit (.int 1)) "%a\n  %b\n    c\n" "t" 1).1 =
        .error failure ∧ failure = .refused e ∧ e.errorClass = .nesting) ∧
    ∃ root,
      (readTemplate ((Grammar.standard .haml).withLimit (.int 1)) "%a\n  %b\n  c\n" "t" 1).1 =
        .ok root ∧
      (readTemplate ((Grammar.standard .haml).withLimit (.int 2)) "%a\n  %b\n  c\n" "t" 1).1 =
        .ok root := by
  have hone : (Value.int 1).toInt? = some 1 := rfl
  have htwo : (Value.int 2).toInt? = some 2 := rfl
  have hdeep := readTemplate_withLimit_iff hone htwo (by decide) (by decide) (.standard .haml)
    "%a\n  %b\n    c\n" "t" 1
  have hflat := readTemplate_withLimit_iff hone htwo (by decide) (by decide) (.standard .haml)
    "%a\n  %b\n  c\n" "t" 1
  refine ⟨hone, htwo, ?_, ?_⟩
  · have htaken : (readTemplate ((Grammar.standard .haml).withLimit (.int 2))
        "%a\n  %b\n    c\n" "t" 1).1.toOption.isSome := by decide +kernel
    have hrefused : (readTemplate ((Grammar.standard .haml).withLimit (.int 1))
        "%a\n  %b\n    c\n" "t" 1).1.toOption.isNone := by decide +kernel
    rcases h : (readTemplate ((Grammar.standard .haml).withLimit (.int 2))
      "%a\n  %b\n    c\n" "t" 1).1 with _ | root
    · rw [h] at htaken
      cases htaken
    rcases h' : (readTemplate ((Grammar.standard .haml).withLimit (.int 1))
      "%a\n  %b\n    c\n" "t" 1).1 with failure | _
    · obtain ⟨e, he, hclass⟩ := hdeep.2 root failure h h'
      exact ⟨root, failure, e, rfl, rfl, he, hclass⟩
    · rw [h'] at hrefused
      cases hrefused
  · have htaken : (readTemplate ((Grammar.standard .haml).withLimit (.int 1))
        "%a\n  %b\n  c\n" "t" 1).1.toOption.isSome := by decide +kernel
    rcases h : (readTemplate ((Grammar.standard .haml).withLimit (.int 1))
      "%a\n  %b\n  c\n" "t" 1).1 with _ | root
    · rw [h] at htaken
      cases htaken
    · exact ⟨root, rfl, ((hflat.1 root).mp h).1⟩

end Templates

end TemplateTree
