import Mathlib.Data.List.TakeWhile
import TemplateTree.Pattern.Basic
import TemplateTree.Text.Lines
import TemplateTree.Text.Multiline

/-!
# Joined lines

A line that is joined to lines ahead keeps its own indentation unless it reads as blank; then there
was nothing on it but the bar that joins lines. Joining makes no text longer.
-/

set_option autoImplicit false

namespace TemplateTree

namespace Text

theorem dropRightWhile_cons (p : Char → Bool) (c : Char) (cs : List Char) :
    dropRightWhile p (c :: cs) =
      if (dropRightWhile p cs).isEmpty && p c then [] else c :: dropRightWhile p cs := rfl

theorem exists_dropRightWhile (p : Char → Bool) (cs : List Char) :
    ∃ tail, cs = dropRightWhile p cs ++ tail ∧ ∀ c ∈ tail, p c := by
  induction cs with
  | nil => exact ⟨[], rfl, by simp⟩
  | cons c cs ih =>
    obtain ⟨tail, heq, hp⟩ := ih
    rw [dropRightWhile_cons]
    split
    · rename_i hc
      obtain ⟨hnil, hpc⟩ := Bool.and_eq_true_iff.mp hc
      rw [List.isEmpty_iff.mp hnil] at heq
      refine ⟨c :: cs, rfl, ?_⟩
      intro d hd
      rcases List.mem_cons.mp hd with rfl | hd
      · exact hpc
      · exact hp d (by rwa [← List.nil_append tail, ← heq])
    · exact ⟨tail, congrArg (List.cons c) heq, hp⟩

theorem length_trimRight_le (cs : List Char) : (trimRight cs).length ≤ cs.length := by
  obtain ⟨tail, heq, _⟩ := exists_dropRightWhile isBlank cs
  have hlen := congrArg List.length heq
  rw [List.length_append] at hlen
  exact Nat.le.intro hlen.symm

theorem trimRight_of_isBlankLine {cs : List Char} (h : isBlankLine cs) : trimRight cs = [] := by
  induction cs with
  | nil => rfl
  | cons c cs ih =>
    obtain ⟨hc, hcs⟩ := Bool.and_eq_true_iff.mp h
    have hnil : dropRightWhile isBlank cs = [] := ih hcs
    rw [trimRight, dropRightWhile_cons, hnil]
    simp [hc]

theorem not_isMultiline_of_isBlankLine {cs : List Char} (h : isBlankLine cs) :
    isMultiline cs = false := by
  rw [isMultiline, trimRight_of_isBlankLine h]
  rfl

theorem isBlank_of_isIndent {c : Char} (h : isIndent c) : isBlank c := by
  simp only [isIndent, Bool.or_eq_true, beq_iff_eq] at h
  rcases h with rfl | rfl <;> rfl

/-- What a line is indented by is settled by what it starts with, up to a character that does not
indent. -/
theorem run_append {xs : List Char} (h : ∃ c ∈ xs, isIndent c = false) (ys : List Char) :
    Pattern.run isIndent (xs ++ ys) = Pattern.run isIndent xs := by
  obtain ⟨c, hc, hcf⟩ := h
  unfold Pattern.run
  rw [List.takeWhile_append, if_neg]
  intro hlen
  have hall := List.takeWhile_eq_self_iff.mp
    ((List.takeWhile_prefix isIndent).eq_of_length hlen) c hc
  simp [hcf] at hall

theorem exists_of_not_isBlankLine {cs : List Char} (h : isBlankLine cs = false) :
    ∃ c ∈ cs, isIndent c = false := by
  obtain ⟨c, hc, hb⟩ := List.all_eq_false.mp h
  refine ⟨c, hc, ?_⟩
  cases hi : isIndent c with
  | false => rfl
  | true => exact absurd (isBlank_of_isIndent hi) hb

theorem run_trimRight {cs : List Char} (h : isBlankLine (trimRight cs) = false) :
    Pattern.run isIndent (trimRight cs) = Pattern.run isIndent cs := by
  obtain ⟨tail, heq, _⟩ := exists_dropRightWhile isBlank cs
  have hrun := run_append (exists_of_not_isBlankLine h) tail
  rw [show trimRight cs ++ tail = cs from heq.symm] at hrun
  exact hrun.symm

/-- A line that may be joined, cut at its bar. -/
theorem exists_of_isMultiline {line : List Char} (h : isMultiline line) :
    ∃ xs tail, line = xs ++ ' ' :: '|' :: tail ∧ (trimRight line).dropLast = xs ++ [' '] ∧
      ∀ c ∈ tail, isBlank c := by
  obtain ⟨xs, hxs⟩ := List.isSuffixOf_iff_suffix.mp h
  obtain ⟨tail, heq, hb⟩ := exists_dropRightWhile isBlank line
  refine ⟨xs, tail, ?_, ?_, hb⟩
  · rw [show dropRightWhile isBlank line = trimRight line from rfl, ← hxs] at heq
    simpa using heq
  · rw [← hxs, show xs ++ [' ', '|'] = xs ++ [' '] ++ ['|'] by simp, List.dropLast_concat]

/-- A trimmed line does not start with a blank. -/
theorem head_trim (cs : List Char) : ∀ c ∈ (trim cs).head?, isBlank c = false := by
  have hhead := List.head?_dropWhile_not isBlank cs
  unfold trim trimLeft
  cases hcs : cs.dropWhile isBlank with
  | nil => simp [trimRight, dropRightWhile]
  | cons c rest =>
    have hc : isBlank c = false := by simpa [hcs] using hhead
    simp [trimRight, dropRightWhile_cons, hc]

theorem isBlankLine_of_trimRight {cs : List Char} (h : isBlankLine (trimRight cs)) :
    isBlankLine cs := by
  obtain ⟨tail, heq, hb⟩ := exists_dropRightWhile isBlank cs
  rw [heq]
  simp only [isBlankLine, List.all_append, Bool.and_eq_true]
  exact ⟨h, List.all_eq_true.mpr hb⟩

/-- Only the bar of a line can be lost when the line is joined. -/
theorem trim_of_isBlankLine_joinLines {line tail : List Char} (h : isMultiline line)
    (hb : isBlankLine (joinLines line tail)) : trim line = ['|'] := by
  obtain ⟨xs, others, heq, hcut, hothers⟩ := exists_of_isMultiline h
  have hxs : ∀ c ∈ xs ++ [' '], isBlank c := by
    have hall := isBlankLine_of_trimRight hb
    rw [hcut] at hall
    exact fun c hc => List.all_eq_true.mp hall c (List.mem_append_left tail hc)
  have hleft : trimLeft line = '|' :: others := by
    rw [heq, show xs ++ ' ' :: '|' :: others = (xs ++ [' ']) ++ '|' :: others by simp, trimLeft,
      List.dropWhile_append_of_pos hxs, List.dropWhile_cons_of_neg (by decide)]
  have hright : dropRightWhile isBlank others = [] :=
    trimRight_of_isBlankLine (List.all_eq_true.mpr hothers)
  rw [trim, hleft, trimRight, dropRightWhile_cons, hright]
  rfl

theorem run_joinLines {line tail : List Char} (h : isMultiline line)
    (ht : ∀ c ∈ tail.head?, isBlank c = false) (hb : isBlankLine (joinLines line tail) = false) :
    Pattern.run isIndent (joinLines line tail) = Pattern.run isIndent line := by
  obtain ⟨xs, others, heq, hcut, _⟩ := exists_of_isMultiline h
  have hstop : ∀ c ∈ tail.head?, isIndent c = false := by
    intro c hc
    cases hi : isIndent c with
    | false => rfl
    | true => exact absurd (isBlank_of_isIndent hi) (by simp [ht c hc])
  unfold joinLines at hb ⊢
  rw [run_trimRight hb, hcut, heq, List.append_assoc]
  by_cases hxs : ∃ c ∈ xs, isIndent c = false
  · rw [run_append hxs, run_append hxs]
  · have hall : ∀ c ∈ xs, isIndent c := by simpa using hxs
    unfold Pattern.run
    rw [List.takeWhile_append_of_pos hall, List.takeWhile_append_of_pos hall]
    cases tail with
    | nil => rfl
    | cons c cs =>
      simpa [isIndent] using hstop c rfl

/-- What the lines ahead add starts with a character that is not blank. -/
theorem head_joinTail (lines : List (List Char)) :
    ∀ c ∈ (joinTail lines).1.head?, isBlank c = false := by
  fun_induction joinTail lines with
  | case1 => simp
  | case2 line rest _ text count heq ih => rwa [heq] at ih
  | case3 line rest _ _ text count heq ih =>
    rw [heq] at ih
    intro c hc
    rcases hcut : (trim line).dropLast with _ | ⟨d, ds⟩
    · exact ih c (by simpa [hcut] using hc)
    · obtain rfl : d = c := by simpa [hcut] using hc
      obtain ⟨others, hothers⟩ : (trim line).dropLast <+: trim line := List.dropLast_prefix _
      apply head_trim line d
      rw [← hothers, hcut]
      rfl
  | case4 => simp

theorem length_trim_le (cs : List Char) : (trim cs).length ≤ cs.length :=
  Nat.le_trans (length_trimRight_le _) (List.dropWhile_sublist _).length_le

/-- Joined lines are no longer than the lines that are joined. -/
theorem length_joinTail_le (lines : List (List Char)) :
    (joinTail lines).1.length + extent (lines.drop (joinTail lines).2) ≤ extent lines := by
  fun_induction joinTail lines with
  | case1 => simp
  | case2 line rest _ text count heq ih =>
    rw [heq] at ih
    simp only [List.drop_succ_cons, extent] at ih ⊢
    omega
  | case3 line rest _ _ text count heq ih =>
    rw [heq] at ih
    have htrim := length_trim_le line
    simp only [List.drop_succ_cons, extent, List.length_append, List.length_dropLast] at ih ⊢
    omega
  | case4 => simp

theorem length_joinLines_le (line tail : List Char) :
    (joinLines line tail).length ≤ line.length + tail.length := by
  have hline := length_trimRight_le line
  have hjoined := length_trimRight_le ((trimRight line).dropLast ++ tail)
  rw [List.length_append, List.length_dropLast] at hjoined
  unfold joinLines
  omega

end Text

end TemplateTree
