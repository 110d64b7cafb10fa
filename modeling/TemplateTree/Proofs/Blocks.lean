import TemplateTree.Production.Block
import TemplateTree.Proofs.Strings

/-!
# Blocks of raw lines

A block is read to its end: the next line after it, when there is one, is neither blank nor
indented deeper than the statement. Everything that a block yields is a line as it stands, or a
string where filters are interpolated.
-/

set_option autoImplicit false

namespace TemplateTree

/-- The next line, when there is one, lies outside the block below the last statement. -/
def Reading.BlockEnded (r : Reading) : Prop :=
  ∀ line, r.cursor.peekLine = some line → Production.inBlock r.indent line = false

namespace Production
open Node
variable {α : Type} {r : Reading} (h : r.cursor.Inside)

theorem reads_enterBlockLine {line : List Char} (hp : r.cursor.peekLine = some line) :
    Reads (enterBlockLine line) r fun blank r' => blank = Text.isBlankLine line ∧
      r'.cursor.entered = r.cursor.nextLine.2.entered := by
  unfold enterBlockLine
  refine Reads.bind (p := discard nextLine)
    (Q := fun _ r' => r' = { r with cursor := r.cursor.nextLine.2 }) ?_ ?_
  · apply Reads.bind (reads_nextLine hp)
    exact fun _ _ hon hr => Reads.pure hon.inside hr.2
  intro _ r₁ hon heq
  subst heq
  split
  · rename_i hblank
    exact Reads.pure hon.inside ⟨hblank.symm, rfl⟩
  · rename_i hblank
    rw [reads_get_bind]
    apply Reads.bind (reads_modifyCursor (Cursor.onward_skip hon.inside _))
    intro _ r₂ hon₂ heq
    subst heq
    exact Reads.pure hon₂.inside ⟨by simpa using hblank, rfl⟩

include h

omit h in
/-- Reading one line of a block, of which the other lines are left. -/
theorem reads_blockLine {body : Bool → Production α} {P : α → Prop}
    (hbody : ∀ blank r₁, r₁.cursor.Inside → Reads (body blank) r₁ fun a r₂ => P a ∧
      r₂.cursor.entered = r₁.cursor.entered)
    {line : List Char} {rest : List (List Char)} (hl : r.cursor.upcoming = line :: rest) :
    Reads (do body (← enterBlockLine line)) r fun a r' => P a ∧ r'.cursor.upcoming = rest := by
  have hp : r.cursor.peekLine = some line := by rw [Cursor.peekLine_eq, hl]; rfl
  have hlines := (Cursor.onward_nextLine hp).1.lines
  apply Reads.bind (reads_enterBlockLine hp)
  intro blank r₁ hon₁ hq
  obtain ⟨_, he₁⟩ := hq
  apply (hbody blank r₁ hon₁.inside).imp
  intro a r₂ hon₂ hq
  obtain ⟨ha, he₂⟩ := hq
  refine ⟨ha, ?_⟩
  rw [← Cursor.upcoming_nextLine hl]
  unfold Cursor.upcoming Cursor.ahead
  rw [he₂, he₁, (hon₁.trans hon₂).cursor.lines, hlines]

theorem reads_mapM_blockLine {body : Bool → Production α} {P : α → Prop}
    (hbody : ∀ blank r₁, r₁.cursor.Inside → Reads (body blank) r₁ fun a r₂ => P a ∧
      r₂.cursor.entered = r₁.cursor.entered)
    (lines rest : List (List Char)) (hl : r.cursor.upcoming = lines ++ rest) :
    Reads (lines.mapM fun line => do body (← enterBlockLine line)) r fun as r' =>
      (∀ a ∈ as, P a) ∧ r'.cursor.upcoming = rest := by
  induction lines generalizing r with
  | nil =>
    rw [List.mapM_nil]
    exact Reads.pure h ⟨by simp, hl⟩
  | cons line lines ih =>
    rw [List.mapM_cons]
    apply Reads.bind (reads_blockLine hbody hl)
    intro a r₁ hon₁ hq
    obtain ⟨ha, hl₁⟩ := hq
    apply Reads.bind (ih hon₁.inside hl₁)
    intro as r₂ hon₂ hq
    obtain ⟨has, hl₂⟩ := hq
    refine Reads.pure hon₂.inside ⟨?_, hl₂⟩
    intro b hb
    rcases List.mem_cons.mp hb with rfl | hb
    · exact ha
    · exact has b hb

/-- A block takes all lines ahead that belong to it. -/
theorem reads_block_upcoming {body : Bool → Production α} {P : α → Prop}
    (hbody : ∀ blank r₁, r₁.cursor.Inside → Reads (body blank) r₁ fun a r₂ => P a ∧
      r₂.cursor.entered = r₁.cursor.entered) :
    Reads (block body) r fun as r' => (∀ a ∈ as, P a) ∧
      r'.cursor.upcoming = r.cursor.upcoming.dropWhile (inBlock r.indent) := by
  unfold block
  rw [reads_get_bind]
  exact reads_mapM_blockLine h hbody _ _ List.takeWhile_append_dropWhile.symm

theorem reads_block {body : Bool → Production α} {P : α → Prop}
    (hbody : ∀ blank r₁, r₁.cursor.Inside → Reads (body blank) r₁ fun a r₂ => P a ∧
      r₂.cursor.entered = r₁.cursor.entered) :
    Reads (block body) r fun as r' => (∀ a ∈ as, P a) ∧ r'.BlockEnded := by
  apply (reads_block_upcoming h hbody).imp
  intro as r₁ hon₁ hq
  obtain ⟨has, hl⟩ := hq
  refine ⟨has, fun line hp => ?_⟩
  have hnot := List.head?_dropWhile_not (inBlock r.indent) r.cursor.upcoming
  rw [Cursor.peekLine_eq, hl] at hp
  rw [hp] at hnot
  rw [hon₁.indent]
  exact hnot

theorem reads_restAsText : Reads restAsText r fun n r' =>
    (∃ s p, n = .text (.str (.chars s)) p) ∧ r'.cursor.entered = r.cursor.entered := by
  unfold restAsText
  rw [reads_cursor_bind]
  apply Reads.bind (reads_restOfLine h)
  intro _ r₁ hon hq
  obtain ⟨rfl, rfl⟩ := hq
  exact Reads.pure hon.inside ⟨⟨_, _, rfl⟩, rfl⟩

/-- Reads a line of a block as it stands. -/
def rawLine (blank : Bool) : Production (Option Node) := do
  let text ← restAsText
  return if blank then none else some text.wrap

omit h in
theorem rawLines_eq : rawLines = (do return (← block rawLine).filterMap id) := rfl

theorem reads_rawLine (blank : Bool) : Reads (rawLine blank) r fun n r' =>
    (∀ m ∈ n, m.IsRawLine) ∧ r'.cursor.entered = r.cursor.entered := by
  apply Reads.bind (reads_restAsText h)
  intro _ r₁ hon hq
  obtain ⟨⟨s, p, rfl⟩, he⟩ := hq
  refine Reads.pure hon.inside ⟨?_, he⟩
  intro m hm
  cases blank with
  | true => simp at hm
  | false =>
    simp only [Bool.false_eq_true, if_false, Option.mem_some_iff] at hm
    exact ⟨s, p, p, hm.symm⟩

theorem reads_rawLines : Reads rawLines r fun ns r' => (∀ n ∈ ns, n.IsRawLine) ∧ r'.BlockEnded := by
  rw [rawLines_eq]
  apply Reads.bind (reads_block h fun blank r₁ h₁ => reads_rawLine h₁ blank)
  intro ns r₁ hon₁ hq
  obtain ⟨hns, hended⟩ := hq
  refine Reads.pure hon₁.inside ⟨?_, hended⟩
  intro n hn
  obtain ⟨m, hm, hmn⟩ := List.mem_filterMap.mp hn
  exact hns m hm n hmn

theorem reads_filterLine (g : Grammar) (blank : Bool) : Reads (filterLine g blank) r fun n r' =>
    (n.IsFilterLine g.options.interpolateFilters.isTrue ∧
      n.Everywhere (Sound g.options.interpolateFilters.isTrue)) ∧
      r'.cursor.entered = r.cursor.entered := by
  have raw : ∀ {n : Node}, (∃ s p, n = .text (.str (.chars s)) p) →
      n.wrap.IsFilterLine g.options.interpolateFilters.isTrue ∧
        n.wrap.Everywhere (Sound g.options.interpolateFilters.isTrue) := by
    intro _ hq
    obtain ⟨s, p, rfl⟩ := hq
    exact ⟨Or.inl ⟨s, p, p, rfl⟩, sound_statement (sound_text _ _) (Or.inr (Or.inr rfl)) _⟩
  unfold filterLine
  split
  · rw [reads_cursor_bind]
    refine Reads.bind (p := discard restOfLine)
      (Q := fun _ r' => r'.cursor.entered = r.cursor.entered) ?_ ?_
    · apply Reads.bind (reads_restOfLine h)
      intro _ r₁ hon hq
      obtain ⟨_, rfl⟩ := hq
      exact Reads.pure hon.inside rfl
    · exact fun _ r₁ hon he => Reads.pure hon.inside ⟨raw ⟨_, _, rfl⟩, he⟩
  · split
    · rename_i hi
      apply Reads.bind (reads_interpolatedString h .bare)
      intro _ r₁ hon hq
      obtain ⟨⟨parts, p, rfl, hparts⟩, he⟩ := hq
      refine Reads.pure hon.inside ⟨⟨Or.inr ⟨hi, parts, .inherit, p, p, rfl⟩, ?_⟩, he⟩
      exact sound_statement (sound_interpolatedString hparts _ _) (Or.inr (Or.inl rfl)) _
    · apply Reads.bind (reads_restAsText h)
      exact fun n r₁ hon hn => Reads.pure hon.inside ⟨raw hn.1, hn.2⟩

theorem reads_filter? (g : Grammar) : Reads (filter? g) r fun n r' =>
    (n = none ∧ r' = r) ∨ ∃ name children p, n = some (.filter name children p) ∧
      (Node.filter name children p).Everywhere (Sound g.options.interpolateFilters.isTrue) ∧
      r'.BlockEnded := by
  unfold filter?
  rw [reads_cursor_bind]
  apply Reads.bind (reads_eat? h _)
  intro _ r₁ hon₁ hq
  rcases hq with ⟨rfl, _, rfl⟩ | ⟨m, rfl, _, rfl⟩
  · exact Reads.pure h (Or.inl ⟨rfl, rfl⟩)
  · apply Reads.bind (reads_block hon₁.inside fun blank r₂ h₂ => reads_filterLine h₂ g blank)
    intro children r₂ hon₂ hq
    obtain ⟨hchildren, hended⟩ := hq
    apply Reads.bind (reads_record hon₂.inside)
    intro _ r₃ hon₃ heq
    subst heq
    refine Reads.pure hon₃.inside (Or.inr ⟨_, _, _, rfl, ?_, hended⟩)
    exact .intro ⟨trivial, fun c hc => (hchildren c hc).1⟩ fun c hc => (hchildren c hc).2

end Production

end TemplateTree
