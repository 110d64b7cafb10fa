import TemplateTree.Proofs.LineEnds
import TemplateTree.Proofs.Scans.Expressions
import TemplateTree.Text.Word

/-!
# Words and blanks

No character of a name is blank, and every character that ends a line is. A character of a name
means nothing to a scan for expressions.
-/

set_option autoImplicit false

namespace TemplateTree

namespace Text
variable {c d : Char}

/-- First and last code point of every run of blank characters. -/
def blankRanges : List (Nat × Nat) :=
  [(0x09, 0x0d), (0x1c, 0x20), (0x85, 0x85), (0xa0, 0xa0), (0x1680, 0x1680), (0x2000, 0x200a),
    (0x2028, 0x2028), (0x2029, 0x2029), (0x202f, 0x202f), (0x205f, 0x205f), (0x3000, 0x3000)]

theorem exists_blankRange (h : isBlank c) :
    ∃ range ∈ blankRanges, range.1 ≤ c.toNat ∧ c.toNat ≤ range.2 := by
  simp only [isBlank, blankRanges, Bool.or_eq_true, Bool.and_eq_true, decide_eq_true_eq, beq_iff_eq,
    List.mem_cons, List.not_mem_nil, or_false, exists_eq_or_imp, exists_eq_left] at h ⊢
  omega

/-- The table holds the seven-bit characters too. -/
theorem exists_wordRange (h : isWord c) :
    ∃ range ∈ wordRanges, range.1 ≤ c.toNat ∧ c.toNat ≤ range.2 := by
  unfold isWord at h
  split at h
  · rcases Bool.or_eq_true_iff.mp h with halphanum | hunderscore
    · rcases Bool.or_eq_true_iff.mp halphanum with halpha | hdigit
      · rcases Bool.or_eq_true_iff.mp halpha with hupper | hlower
        · have hrange : 'A'.val ≤ c.val ∧ c.val ≤ 'Z'.val := of_decide_eq_true hupper
          exact ⟨(0x41, 0x5a), by decide +kernel, hrange⟩
        · have hrange : 'a'.val ≤ c.val ∧ c.val ≤ 'z'.val :=
            (Bool.and_eq_true_iff.mp hlower).imp of_decide_eq_true of_decide_eq_true
          exact ⟨(0x61, 0x7a), by decide +kernel, hrange⟩
      · have hrange : '0'.val ≤ c.val ∧ c.val ≤ '9'.val :=
          (Bool.and_eq_true_iff.mp hdigit).imp of_decide_eq_true of_decide_eq_true
        exact ⟨(0x30, 0x39), by decide +kernel, hrange⟩
    · obtain rfl := beq_iff_eq.mp hunderscore
      exact ⟨(0x5f, 0x5f), by decide +kernel, by decide⟩
  · obtain ⟨range, hmem, hrange⟩ := List.any_eq_true.mp h
    simp only [Bool.and_eq_true, decide_eq_true_eq] at hrange
    exact ⟨range, hmem, hrange⟩

theorem ranges_apart : wordRanges.all fun word => blankRanges.all fun blank =>
    word.2.blt blank.1 || blank.2.blt word.1 := by
  decide +kernel

theorem not_isBlank_of_isWord (h : isWord c) : isBlank c = false := by
  rw [← Bool.not_eq_true]
  intro hblank
  obtain ⟨word, hword, hlow, hhigh⟩ := exists_wordRange h
  obtain ⟨blank, hmem, hlow', hhigh'⟩ := exists_blankRange hblank
  have hapart := List.all_eq_true.mp (List.all_eq_true.mp ranges_apart word hword) blank hmem
  rw [Bool.or_eq_true, Nat.blt_eq, Nat.blt_eq] at hapart
  omega

theorem isBlank_of_isLineBreak (h : isLineBreak c) : isBlank c := by
  simp only [isLineBreak, isBlank, Bool.or_eq_true, Bool.and_eq_true, decide_eq_true_eq,
    beq_iff_eq] at h ⊢
  omega

theorem not_isLineBreak_of_not_isBlank (h : isBlank c = false) : isLineBreak c = false := by
  rw [← Bool.not_eq_true] at h ⊢
  exact fun hbreak => h (isBlank_of_isLineBreak hbreak)

theorem not_isIndent_of_not_isBlank (h : isBlank c = false) : isIndent c = false := by
  rw [← Bool.not_eq_true]
  intro hindent
  simp only [isIndent, Bool.or_eq_true, beq_iff_eq] at hindent
  rcases hindent with rfl | rfl <;> cases h

theorem ne_of_isWord (h : isWord c) (d : Char) (hd : isWord d = false) : c ≠ d := by
  rintro rfl
  rw [h] at hd
  cases hd

theorem isPlain_of_isWord (h : isWord c) : Scan.IsPlain c := by
  have hne := ne_of_isWord h
  constructor
  · simp [Scan.isQuote, hne '"' rfl, hne '\'' rfl]
  · simp [Scan.closer?, hne '(' rfl, hne '\x7b' rfl, hne '[' rfl]
  · simp [Scan.isCloser, hne ')' rfl, hne '\x7d' rfl, hne ']' rfl]
  · exact hne '\\' rfl

theorem unbroken_of_isWord {name : List Char} (h : ∀ c ∈ name, isWord c) : Unbroken name :=
  fun c hc => not_isLineBreak_of_not_isBlank (not_isBlank_of_isWord (h c hc))

theorem isWord_or_of_isAttributeName (h : isAttributeName c) :
    isWord c ∨ c = '+' ∨ c = ':' ∨ c = '-' := by
  simpa [isAttributeName, or_assoc] using h

theorem not_isBlank_of_isAttributeName (h : isAttributeName c) : isBlank c = false := by
  rcases isWord_or_of_isAttributeName h with h | rfl | rfl | rfl
  · exact not_isBlank_of_isWord h
  · rfl
  · rfl
  · rfl

theorem ne_of_isAttributeName (h : isAttributeName c) (d : Char) (hd : isAttributeName d = false) :
    c ≠ d := by
  rintro rfl
  rw [h] at hd
  cases hd

end Text

end TemplateTree
