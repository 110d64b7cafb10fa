import TemplateTree.Proofs.Joining
import TemplateTree.Proofs.Statements
import TemplateTree.Template

/-!
# Entering lines

What one step of reading a template does before it adds to the outline. The level of a statement is
the one that its own line asks for, also when the line is joined to lines ahead. A line outside the
block below the last statement is not indented deeper than that statement.
-/

set_option autoImplicit false

namespace TemplateTree

namespace Indent
variable {t t' : Indent} {indent : List Char} {atStart : Bool} {level : Nat}

/-- An indented line in a document with a unit holds as many units as its level says. -/
theorem levelIn_ok {unit : IndentUnit} {current length : Nat} {char : Char}
    (h : levelIn unit current char length = .ok level) :
    char = unit.char ∧ length = unit.width * level ∧ level ≤ current + 1 := by
  unfold levelIn at h
  split at h
  · simp at h
  rename_i hchar
  split at h
  · simp at h
  rename_i hwidth
  split at h
  · simp at h
  rename_i hdeep
  obtain rfl := Except.ok.inj h
  refine ⟨by simpa using hchar, ?_, by omega⟩
  have hmod : length % unit.width = 0 := by simpa using hwidth
  exact (Nat.mul_div_cancel' (Nat.dvd_of_mod_eq_zero hmod)).symm

/-- A line whose indentation is taken is not indented, or it is indented by so many units as its
level says and stands at most one level below the line before it. -/
theorem check_ok (h : t.check indent atStart = (.ok level, t')) :
    (indent = [] ∧ level = 0 ∧ t' = { t with level := 0, previous := t.level }) ∨
      atStart = false ∧ level ≤ t.level + 1 ∧ indent ≠ [] ∧ ∃ unit : IndentUnit,
        indent = List.replicate (unit.width * level) unit.char ∧
          (t.unit = some unit ∨ t.unit = none ∧ level = 1) ∧ t' = ⟨some unit, level, t.level⟩ := by
  unfold check at h
  cases indent with
  | nil =>
    simp only [Prod.mk.injEq, Except.ok.injEq] at h
    exact Or.inl ⟨rfl, h.1.symm, h.2.symm⟩
  | cons char others =>
    right
    dsimp only at h
    split at h
    · simp at h
    rename_i hstart
    split at h
    · simp at h
    rename_i hmixed
    have hsame : char :: others = List.replicate (char :: others).length char := by
      refine List.eq_replicate_iff.mpr ⟨rfl, ?_⟩
      simpa using hmixed
    split at h
    · rename_i hunit
      simp only [Prod.mk.injEq, Except.ok.injEq] at h
      obtain ⟨rfl, rfl⟩ := h
      refine ⟨by simpa using hstart, Nat.le_add_left _ _, List.cons_ne_nil _ _,
        ⟨char, others.length + 1⟩, ?_, ?_, rfl⟩
      · rw [Nat.mul_one]
        exact hsame
      · exact Or.inr ⟨hunit, rfl⟩
    · rename_i unit hunit
      split at h
      · simp at h
      rename_i n hlevel
      simp only [Prod.mk.injEq, Except.ok.injEq] at h
      obtain ⟨rfl, rfl⟩ := h
      obtain ⟨rfl, hlength, hle⟩ := levelIn_ok hlevel
      refine ⟨by simpa using hstart, hle, List.cons_ne_nil _ _, unit, ?_, Or.inl hunit, by rw [hunit]⟩
      rw [← hlength]
      exact hsame

/-- The level of a line is noted, and the one before it. -/
theorem check_levels (h : t.check indent atStart = (.ok level, t')) :
    t'.level = level ∧ t'.previous = t.level := by
  obtain ⟨_, rfl, rfl⟩ | ⟨_, _, _, unit, _, _, rfl⟩ := check_ok h
  · exact ⟨rfl, rfl⟩
  · exact ⟨rfl, rfl⟩

/-- A line outside the block is not indented deeper than the line that the block belongs to. -/
theorem level_le_of_not_inBlock {line : List Char} (hout : Production.inBlock t line = false)
    (h : t.check (Pattern.run Text.isIndent line) atStart = (.ok level, t')) :
    level ≤ t.level := by
  obtain ⟨_, rfl, _⟩ | ⟨_, hle, hne, unit, hindent, hunit, _⟩ := check_ok h
  · exact Nat.zero_le _
  by_contra hdeep
  obtain rfl : level = t.level + 1 := by omega
  -- the units of a line that is one level deeper are what the block asks for
  have hbelow : t.below 1 line ≠ [] ∧ t.below 1 line <+: line := by
    have hprefix : Pattern.run Text.isIndent line <+: line := List.takeWhile_prefix _
    rcases hunit with hunit | ⟨hunit, _⟩
    · have hwidth : ((unit.width : Int) * (t.level + 1)).toNat = unit.width * (t.level + 1) := by
        rw [← Int.toNat_natCast (unit.width * (t.level + 1))]
        push_cast
        rfl
      have heq : t.below 1 line = Pattern.run Text.isIndent line := by
        rw [hindent]
        simp only [below, hunit, hwidth]
      rw [heq]
      exact ⟨hne, hprefix⟩
    · cases line with
      | nil => exact absurd rfl hne
      | cons c cs =>
        have hc : Text.isIndent c := by
          by_contra hc
          exact hne (List.takeWhile_cons_of_neg hc)
        simp only [below, hunit, hc, if_true]
        exact ⟨List.cons_ne_nil _ _, cs, rfl⟩
  simp [Production.inBlock, hbelow.1, List.isPrefixOf_iff_prefix.mpr hbelow.2] at hout

end Indent

/-- A step that enters a line: the cursor moves on, and the outline stays as it is. -/
structure Reading.Entered (r r' : Reading) (line : List Char) : Prop where
  peek : r.cursor.peekLine = some line
  cursor : r.cursor.Onward r'.cursor
  less : r'.cursor.remaining < r.cursor.remaining
  outline : r'.outline = r.outline

namespace Production
open Node
variable {g : Grammar} {r : Reading}

/-- What a line reads as: indented as it stands, and blank only when there is nothing but the bar of
a joined line on it. -/
structure ReadsAs (line joined : List Char) : Prop where
  blank : Text.isBlankLine joined → Text.isBlankLine line ∨ Text.trim line = ['|']
  indent : Text.isBlankLine joined = false →
    Pattern.run Text.isIndent joined = Pattern.run Text.isIndent line

/-- Lines ahead that are joined to the line leave no more of the source than they were. -/
theorem onward_joined {c : Cursor} (h : c.Inside) (hcolumn : c.column = 0)
    (hanchor : c.anchor = c.lineIndex) {tail : List Char} {count : Nat}
    (hj : Text.joinTail (c.ahead.map (·.text)) = (tail, count)) :
    c.Onward ({ c with entered := c.entered + count }.replaceLine (Text.joinLines c.line tail)
      c.lineIndex) where
  filename := rfl
  firstLine := rfl
  lines := rfl
  entered := Nat.le_add_right _ _
  remaining := by
    have hlength := Text.length_joinTail_le (c.ahead.map (·.text))
    have hjoined := Text.length_joinLines_le c.line tail
    have hahead : c.lines.drop (c.entered + count) = c.ahead.drop count := List.drop_drop.symm
    rw [hj, ← List.map_drop, ← hahead] at hlength
    simp only [Cursor.remaining, Cursor.replaceLine, Cursor.ahead, hcolumn] at hlength ⊢
    omega
  inside := ⟨Int.le_refl _, Int.natCast_nonneg _, hanchor ▸ h.anchor_nonneg, hanchor ▸ h.anchor_lt⟩

theorem reads_joinMultiline (h : r.cursor.Inside) (hcolumn : r.cursor.column = 0)
    (hanchor : r.cursor.anchor = r.cursor.lineIndex) : Reads joinMultiline r fun _ r' =>
      r'.cursor.column = 0 ∧ ReadsAs r.cursor.line r'.cursor.line := by
  unfold joinMultiline
  rw [reads_cursor_bind]
  split
  · rename_i hm
    rcases hj : Text.joinTail (r.cursor.ahead.map (·.text)) with ⟨tail, count⟩
    have hhead := Text.head_joinTail (r.cursor.ahead.map (·.text))
    rw [hj] at hhead ⊢
    apply (reads_setCursor (onward_joined h hcolumn hanchor hj)).imp
    intro _ r₁ _ heq
    subst heq
    refine ⟨rfl, fun hb => Or.inr (Text.trim_of_isBlankLine_joinLines hm hb), fun hb => ?_⟩
    exact Text.run_joinLines hm hhead hb
  · exact Reads.pure h ⟨hcolumn, Or.inl, fun _ => rfl⟩

theorem ensures_checkIndent {indent : List Char} {atStart : Bool} (h : r.cursor.Inside) :
    Ensures (checkIndent indent atStart) r
      (fun level r' => r'.cursor = r.cursor ∧ r'.outline = r.outline ∧
        r.indent.check indent atStart = (.ok level, r'.indent))
      (fun e _ => e.At r.cursor) := by
  unfold checkIndent
  rw [ensures_get_bind, ensures_get_bind]
  rcases hc : r.indent.check indent atStart with ⟨cause | level, t⟩
  · dsimp only
    rw [ensures_modify_bind, ensures_cursor_bind]
    exact h.refused_at cause
  · dsimp only
    rw [ensures_modify_bind]
    split
    · split
      · exact ⟨rfl, rfl, rfl⟩
      · exact ⟨rfl, rfl, rfl⟩
    · exact ⟨rfl, rfl, rfl⟩

/-- What the line of a statement comes to. -/
structure Stated (g : Grammar) (r r' : Reading) (line : List Char) (node : Node)
    (level previous : Nat) : Prop where
  previous : previous = r.indent.level
  check : r.indent.check (Pattern.run Text.isIndent line) r.outline.last.isNone =
    (.ok level, r'.indent)
  node : node.ReadAs g r'

/-- What one step of a template finds: the end of the source, or a line that says nothing, or a
statement. -/
inductive Finds (g : Grammar) (r r' : Reading) : Option Entry → Prop where
  | finish (peek : r.cursor.peekLine = none) (indent : r'.indent = r.indent)
      (outline : r'.outline = r.outline) (lines : r'.cursor.lines = r.cursor.lines)
      (entered : r'.cursor.entered = r.cursor.lines.length + 1) : Finds g r r' none
  | blank {line : List Char} (entered : r.Entered r' line) (indent : r'.indent = r.indent)
      (vanished : Text.isBlankLine line ∨ Text.trim line = ['|']) : Finds g r r' (some .blank)
  | statement {line : List Char} {node : Node} {level previous : Nat} (entered : r.Entered r' line)
      (stated : Stated g r r' line node level previous) :
      Finds g r r' (some (.statement node level previous))

theorem ensures_entry {line : List Char} (h : r.cursor.Inside) (hcolumn : r.cursor.column = 0)
    (hreads : ReadsAs line r.cursor.line) : Ensures (entry g) r
      (fun said r' => r.cursor.Onward r'.cursor ∧ r'.outline = r.outline ∧
        ((said = .blank ∧ r'.indent = r.indent ∧
            (Text.isBlankLine line ∨ Text.trim line = ['|'])) ∨
          ∃ node level previous, said = .statement node level previous ∧
            Stated g r r' line node level previous))
      (fun e _ => e.At r.cursor) := by
  unfold entry
  rw [ensures_cursor_bind]
  split
  · rename_i hb
    exact ⟨.refl h, rfl, Or.inl ⟨rfl, rfl, hreads.blank hb⟩⟩
  rename_i hb
  have hindent : Pattern.run Text.isIndent r.cursor.rest = Pattern.run Text.isIndent line := by
    rw [Cursor.rest, hcolumn]
    exact hreads.indent (by simpa using hb)
  apply Reads.bind_ensures (reads_skipIndent h)
  intro _ r₁ hon₁ _
  rw [ensures_get_bind, hindent]
  apply Ensures.bind (ensures_checkIndent hon₁.inside)
  intro level r₂ hq
  obtain ⟨hcursor, houtline, hcheck⟩ := hq
  rw [← hcursor]
  apply Reads.bind_ensures (reads_statement? (by rw [hcursor]; exact hon₁.inside) g)
  intro said r₃ hon₃ hsaid
  cases said with
  | none =>
    have hfail : Reads (expected .statement : Production Entry) r₃ fun _ _ => False :=
      reads_expected hon₃.inside .statement
    exact Ensures.imp hfail (fun _ _ hf => hf.2.elim) fun _ _ he => he.2
  | some node =>
    have hindent₃ : r₃.indent = r₂.indent := hon₃.indent
    rw [hon₁.indent, hon₁.outline] at hcheck
    refine ⟨hon₁.cursor.trans (hcursor ▸ hon₃.cursor), ?_, Or.inr ⟨_, _, _, rfl, ?_, ?_, ?_⟩⟩
    · rw [hon₃.outline, houtline, hon₁.outline]
    · rw [hindent₃]
      exact (Indent.check_levels hcheck).2
    · rw [hindent₃]
      exact hcheck
    · exact hsaid node rfl

/-- A line is entered, or the source ends there. A refusal is at a line of the source. -/
theorem ensures_nextEntry (g : Grammar) (r : Reading) :
    Ensures (nextEntry g) r (fun said r' => Finds g r r' said) (fun e _ => e.At r.cursor) := by
  unfold nextEntry nextLine
  rw [bind_assoc, ensures_cursor_bind]
  cases hp : r.cursor.peekLine with
  | none =>
    rw [Cursor.nextLine_eq_of_none hp]
    exact .finish hp rfl rfl rfl rfl
  | some line =>
    obtain ⟨hon, hless⟩ := Cursor.onward_nextLine hp
    rw [Cursor.nextLine_eq hp] at hon hless ⊢
    dsimp only at hon hless ⊢
    change Ensures (do joinMultiline; return some (← entry g)) { r with cursor := _ } _ _
    refine Ensures.imp (Reads.bind_ensures (R := fun said r' => Finds g r r' said)
      (reads_joinMultiline hon.inside rfl ?_) ?_) (fun _ _ hr => hr) ?_
    · simp [Cursor.lineIndex]
    · intro _ r₁ hon₁ hq
      obtain ⟨hcolumn, hreads⟩ := hq
      apply Ensures.bind (ensures_entry hon₁.inside hcolumn hreads)
      intro said r₂ hq
      obtain ⟨hon₂, houtline, hsaid⟩ := hq
      have hentered : r.Entered r₂ line := by
        refine ⟨hp, hon.trans (hon₁.cursor.trans hon₂), ?_, houtline.trans hon₁.outline⟩
        exact Nat.lt_of_le_of_lt (hon₁.cursor.trans hon₂).remaining hless
      have hindent : r₁.indent = r.indent := hon₁.indent
      rcases hsaid with ⟨rfl, hsame, hblank⟩ | ⟨node, level, previous, rfl, hstated⟩
      · exact .blank hentered (hsame.trans hindent) hblank
      · refine .statement hentered ⟨?_, ?_, hstated.node⟩
        · rw [← hindent]
          exact hstated.previous
        · rw [← hindent, ← show r₁.outline = r.outline from hon₁.outline]
          exact hstated.check
    · exact fun _ _ he => he.of_onward hon

end Production

end TemplateTree
