import TemplateTree.Proofs.FilterReadings
import TemplateTree.Proofs.Limits

/-!
# Interpolated filters

A template that is taken with interpolated filters is taken by the same steps without. The tree is
the one without in which the lines of the filters are cut, since a statement goes to the same place
of both outlines.
-/

set_option autoImplicit false

namespace TemplateTree

namespace Outline
open Node

/-- The outline with the lines of its filters cut. -/
def cutLines (o : Outline) : Outline := { o with root := o.root.mapLines cutLine }

section Insert
variable {o o' : Outline} {statement m n : Node} {level previous : Nat}

/-- Where a level may be opened, a statement goes to the node that is open there. -/
theorem insert_of_accepts (h : o.AtLevel previous) (hle : level ≤ previous + 1)
    (hfirst : o.last = none → level = 0) (hroom : level ≤ previous ∨ o.hasRoom)
    (haccepts : (o.root.lastAt level).Accepts) :
    o.insert statement level previous = (.ok (), o.withStatement statement level) := by
  have hopen : ¬ (previous < level ∧ o.hasRoom = false) := by
    rintro ⟨hlt, hfull⟩
    rw [hfull] at hroom
    exact hroom.elim (Nat.not_le.mpr hlt) Bool.false_ne_true
  rw [insert_eq h hle hfirst, if_neg hopen, attach_eq, show refusal? _ = none from haccepts]

theorem AtLevel.cutLines (h : o.AtLevel previous) : o.cutLines.AtLevel previous :=
  ⟨h.ancestors, h.parent, h.last⟩

/-- A statement that is taken where the lines are cut is taken where they are not. -/
theorem insert_of_cutLines (h : o.Grown Accepts previous) (hle : level ≤ previous + 1)
    (hfirst : o.last = none → level = 0) (hcuts : Production.Cuts m n)
    (hok : o.cutLines.insert n level previous = (.ok (), o')) :
    o.insert m level previous = (.ok (), o.withStatement m level) ∧
      (o.root.lastAt level).Accepts ∧ o' = (o.withStatement m level).cutLines := by
  obtain ⟨hroom, haccepts', rfl⟩ := insert_ok h.atLevel.cutLines hle hfirst hok
  have hpath := h.path_parent hle hfirst
  have haccepts : (o.root.lastAt level).Accepts :=
    (accepts_lastAt_mapLines cutLine hpath).mp haccepts'
  have hroot := addChildAt_mapLines (f := cutLine) hpath haccepts hcuts.line
  rw [← hcuts.mapped] at hroot
  refine ⟨insert_of_accepts h.atLevel hle hfirst hroom haccepts, haccepts, ?_⟩
  exact congrArg (fun root => { o.openedTo level with root, last := some (level + 1) }) hroot.symm

end Insert

end Outline

/-- A filter keeps its lines when another statement is added to a tree. -/
theorem Node.ReadsLines.addChild {n child : Node} {cs : List Node} (haccepts : n.Accepts)
    (h : n.ReadsLines) (hcs : cs ⊆ n.children) (hchild : ¬ child.IsTextLine) :
    (n.withChildren (cs ++ [child])).ReadsLines := by
  intro hkind s p q hmem
  rw [children_withChildren haccepts.canNest] at hmem
  rw [kind_withChildren] at hkind
  rcases List.mem_append.mp hmem with hmem | hmem
  · exact h hkind s p q (hcs hmem)
  · rw [← List.mem_singleton.mp hmem] at hchild
    exact absurd trivial hchild

open Production Correspondence Outline Node

/-- What the next line says in a reading, it says in one with the same lines ahead. -/
theorem exists_nextEntry_of_second {g : Grammar} {r r' s' : Reading} {said : Entry}
    (ha : (moved id []).Ahead r.cursor r'.cursor) (hindent : r'.indent = r.indent)
    (hlast : r'.outline.last = r.outline.last)
    (hreads : (nextEntry g).run r' = (.ok (some said), s')) :
    ∃ s, (nextEntry g).run r = (.ok (some said), s) ∧ (moved id []).Ahead s.cursor s'.cursor ∧
      s'.indent = s.indent ∧ s.outline = r.outline ∧ s'.outline = r'.outline := by
  obtain ⟨line, hp'⟩ := exists_peekLine hreads
  have hp : r.cursor.peekLine = some line := by
    rw [Cursor.peekLine_eq] at hp' ⊢
    rwa [ha.upcoming, show (moved id []).extra = [] from rfl, List.append_nil] at hp'
  obtain ⟨found, s, hown, e, e', rfl, hfound, hsame, htogether, hindent', houtline, houtline'⟩ :=
    (outcomes_found (g := g) rfl ha hindent hlast hp).exists_of_ok_second hreads
  obtain rfl := Option.some.inj hfound
  have hentry : e.relocate id = said.relocate id := hsame
  rw [Entry.relocate_id, Entry.relocate_id] at hentry
  exact ⟨s, hentry ▸ hown, htogether.toAhead, hindent', houtline, houtline'⟩

/-- A reading, and the one where filters are interpolated. -/
structure Cut (r r' : Reading) : Prop where
  ahead : (moved id []).Ahead r.cursor r'.cursor
  indent : r'.indent = r.indent
  outline : r'.outline = r.outline.cutLines
  reads : r.outline.root.Throughout ReadsLines

namespace Cut
variable {g : Grammar} {on off : Value} {r r' s' t' : Reading} {source filename : String}
  {firstLine : Int} {es : List Entry} {said' : Entry}

theorem opening (g : Grammar) (on off : Value) (source filename : String) (firstLine : Int) :
    Cut (.opening (g.withInterpolation off) source filename firstLine)
      (.opening (g.withInterpolation on) source filename firstLine) where
  ahead := ahead_moved rfl (List.append_nil _).symm fun _ line hline => ⟨line, hline, fun _ => rfl⟩
  indent := rfl
  outline := rfl
  reads := .intro nofun nofun

theorem upcoming (h : Cut r r') : r'.cursor.upcoming = r.cursor.upcoming :=
  h.ahead.upcoming.trans (List.append_nil _)

/-- A line that is added where filters are interpolated is added where they are not. -/
theorem step (hon : on.isTrue) (hoff : off.isTrue = false) (h : Cut r r')
    (hset : Settled (g.withInterpolation off) source filename firstLine es r)
    (hregular : r.indent.Regular)
    (reads' : (nextEntry (g.withInterpolation on)).run r' = (.ok (some said'), s'))
    (places' : (place said').run s' = (.ok (), t')) :
    ∃ said s t, (nextEntry (g.withInterpolation off)).run r = (.ok (some said), s) ∧
      (place said).run s = (.ok (), t) ∧ Cut t t' := by
  have hlast : r'.outline.last = r.outline.last := by
    rw [h.outline]
    rfl
  -- first the same line read with interpolation from where the other reading stands
  obtain ⟨s, hcut, hahead, hindent, houtline, houtline'⟩ :=
    exists_nextEntry_of_second h.ahead h.indent hlast reads'
  obtain ⟨_, reads, hrel⟩ := matches_nextEntry hon hoff hregular _ s hcut
  cases hrel with
  | some hcuts =>
  rename_i said
  cases hcuts with
  | blank =>
    obtain rfl : s' = t' := (Prod.mk.inj places').2
    exact ⟨.blank, s, s, reads, rfl, hahead, hindent, by rw [houtline', h.outline, houtline],
      houtline ▸ h.reads⟩
  | statement hcuts level previous =>
    cases finds_of_nextEntry reads with
    | statement entered stated =>
      rename_i m n line
      obtain ⟨o', hinsert', rfl⟩ := place_statement_iff.mp places'
      rw [houtline', h.outline, stated.previous, hset.level] at hinsert'
      have hreach := hset.le_reach stated
      obtain ⟨hinsert, haccepts, ho⟩ := insert_of_cutLines hset.levelled.grown
        (Nat.le_trans hreach reach_le) (hset.levelled.level_eq_zero hreach) hcuts hinsert'
      rw [← houtline, ← hset.level, ← stated.previous] at hinsert
      refine ⟨_, s, _, reads, place_statement_iff.mpr ⟨_, hinsert, rfl⟩, hahead, hindent, ?_, ?_⟩
      · exact ho.trans (congrArg (fun o => (withStatement m level o).cutLines) houtline.symm)
      · change (s.outline.root.addChildAt level m).Throughout ReadsLines
        rw [houtline]
        exact h.reads.addChildAt (fun k cs c => Node.ReadsLines.addChild)
          (hset.levelled.path_parent hreach) haccepts hcuts.reads hcuts.line

end Cut

section Templates
variable {g : Grammar} {on off : Value} {source filename : String} {firstLine : Int}
  {es' : List Entry} {r' : Reading}

/-- A run where filters are interpolated is one where they are not. -/
theorem Run.of_withInterpolation (hon : on.isTrue) (hoff : off.isTrue = false)
    (h : Run (g.withInterpolation on) (.opening (g.withInterpolation on) source filename firstLine)
      es' r') :
    ∃ es r, Run (g.withInterpolation off)
      (.opening (g.withInterpolation off) source filename firstLine) es r ∧ Cut r r' := by
  induction h with
  | start => exact ⟨[], _, .start, .opening g on off source filename firstLine⟩
  | step before reads' places' ih =>
    obtain ⟨es, r, hrun, hcut⟩ := ih
    obtain ⟨said, s, t, reads, places, ht⟩ :=
      hcut.step hon hoff hrun.settled hrun.regular reads' places'
    exact ⟨es ++ [said], t, .step hrun reads places, ht⟩

/-- A template that is taken with interpolated filters is taken without. The tree with them is the
tree without them in which the lines of filters are cut into strings, and nothing else in it is
changed. A filter in whose lines no backslash protects an opening has the same text in both. -/
theorem readTemplate_withInterpolation (hon : on.isTrue) (hoff : off.isTrue = false) (g : Grammar)
    (source filename : String) (firstLine : Int) {interpolated : Node}
    (h : (readTemplate (g.withInterpolation on) source filename firstLine).1 = .ok interpolated) :
    ∃ plain, (readTemplate (g.withInterpolation off) source filename firstLine).1 = .ok plain ∧
      interpolated = plain.mapLines cutLine ∧
      plain.Throughout fun n => n.kind = .filter →
        (∀ s p q, .statement (.text (.str (.chars s)) p) q ∈ n.children →
          ¬ ['\\', '#', '\x7b'] <:+: s.toList) →
        (n.mapLines cutLine).filterContent = n.filterContent := by
  obtain ⟨es', r', hrun', hend', rfl, -⟩ := exists_run_to_end h
  obtain ⟨es, r, hrun, hcut⟩ := hrun'.of_withInterpolation hon hoff
  refine ⟨r.outline.root, hrun.readTemplate_of_upcoming (hcut.upcoming.symm.trans hend'), ?_, ?_⟩
  · rw [hcut.outline]
    rfl
  · exact hcut.reads.imp fun n hreads hkind => filterContent_mapLines hkind hreads

/-- The text that a line of a block wraps. -/
def wrappedText : Node → String
  | .statement (.text (.str (.chars s)) _) _ => s
  | _ => ""

/-- A filter with an expression in its block. -/
theorem readTemplate_withInterpolation_expression :
    (Value.bool true).isTrue ∧ (Value.bool false).isTrue = false ∧
    ∃ interpolated plain filter,
      (readTemplate ((Grammar.standard .haml).withInterpolation (.bool true))
        ":f\n a#\x7bb\x7d\n c" "t" 1).1 = .ok interpolated ∧
      (readTemplate ((Grammar.standard .haml).withInterpolation (.bool false))
        ":f\n a#\x7bb\x7d\n c" "t" 1).1 = .ok plain ∧
      interpolated = plain.mapLines cutLine ∧ plain.children = [filter] ∧ filter.kind = .filter ∧
      filter.filterContent.toOption = some "a#\x7bb\x7d\nc" ∧
      (filter.mapLines cutLine).filterContent = filter.filterContent := by
  have htaken : (readTemplate ((Grammar.standard .haml).withInterpolation (.bool true))
      ":f\n a#\x7bb\x7d\n c" "t" 1).1.toOption.isSome := by decide +kernel
  have hfilters : (readTemplate ((Grammar.standard .haml).withInterpolation (.bool false))
      ":f\n a#\x7bb\x7d\n c" "t" 1).1.toOption.map (fun root => root.children.map fun n =>
        (n.kind, n.filterContent.toOption, n.children.map wrappedText)) =
      some [(.filter, some "a#\x7bb\x7d\nc", ["a#\x7bb\x7d", "c"])] := by
    decide +kernel
  rcases h : (readTemplate ((Grammar.standard .haml).withInterpolation (.bool true))
    ":f\n a#\x7bb\x7d\n c" "t" 1).1 with _ | interpolated
  · rw [h] at htaken
    cases htaken
  have hon : (Value.bool true).isTrue := rfl
  have hoff : (Value.bool false).isTrue = false := rfl
  obtain ⟨plain, hplain, hmapped, hcontents⟩ := readTemplate_withInterpolation hon hoff
    (.standard .haml) ":f\n a#\x7bb\x7d\n c" "t" 1 h
  rw [hplain] at hfilters
  obtain ⟨filter, hchildren, hn⟩ := List.map_eq_singleton_iff.mp (Option.some.inj hfilters)
  obtain ⟨hkind, hrest⟩ := Prod.mk.inj hn
  obtain ⟨hcontent, htexts⟩ := Prod.mk.inj hrest
  refine ⟨hon, hoff, interpolated, plain, filter, rfl, hplain, hmapped, hchildren, hkind, hcontent,
    ?_⟩
  refine (hcontents.of_mem (by simp [hchildren])).here hkind fun s p q hmem => ?_
  have hs : s ∈ filter.children.map wrappedText := List.mem_map_of_mem (f := wrappedText) hmem
  rw [htexts] at hs
  simp only [List.mem_cons, List.not_mem_nil, or_false] at hs
  rcases hs with rfl | rfl <;> decide

end Templates

end TemplateTree
