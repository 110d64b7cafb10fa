import Mathlib.Data.List.DropRight
import TemplateTree.Dialect
import TemplateTree.Proofs.Joining

/-!
# Markers

What the patterns for comments and inline inserts read: a marker and the blanks after it. The pattern
for a tag reads its marker and its name, or sees the mark of a shorthand.
-/

set_option autoImplicit false

namespace TemplateTree

namespace Pattern

theorem sequence_pair {p q : Pattern} {cs : List Char} {m : Match}
    (h : sequence [p, q] cs = some m) : ∃ m₁ m₂, p cs = some m₁ ∧ q (cs.drop m₁.length) = some m₂ ∧
      m = ⟨m₁.length + m₂.length, m₁.groups ++ m₂.groups⟩ := by
  simp only [sequence, andThen] at h
  split at h
  · cases h
  · rename_i m₁ hp
    split at h
    · cases h
    · rename_i m₂ hq
      exact ⟨m₁, m₂, hp, hq, (Option.some.inj h).symm⟩

/-- Blanks are read up to what is not blank. -/
theorem blanks_spec {cs : List Char} {m : Match} (h : blanks cs = some m) :
    cs.take m.length = cs.takeWhile Text.isBlank ∧ cs.drop m.length = cs.dropWhile Text.isBlank := by
  obtain rfl := Option.some.inj h
  exact ⟨take_runLength _ _, drop_runLength _ _⟩

/-- A comment marker takes the blanks after it. -/
theorem trimLeft_after_comment {d : Dialect} {cs : List Char} {m : Match}
    (h : d.comment cs = some m) : Text.trimLeft (cs.drop m.length) = cs.drop m.length := by
  have hsequence : ∃ p : Pattern, sequence [p, blanks] cs = some m := by
    cases d with
    | haml => exact ⟨_, h⟩
    | jade => exact ⟨_, h⟩
  obtain ⟨p, hp⟩ := hsequence
  obtain ⟨m₁, m₂, -, hblanks, rfl⟩ := sequence_pair hp
  rw [← List.drop_drop, (blanks_spec hblanks).2, Text.trimLeft]
  exact List.dropWhile_idempotent _ _

/-- One of two characters, or nothing. -/
theorem modifier_spec {cs : List Char} {m : Match}
    (h : captured (atMostOne fun c => c == '&' || c == '!') cs = some m) :
    ∃ modifier rest, cs = modifier ++ rest ∧ m = ⟨modifier.length, [some modifier]⟩ ∧
      (modifier = [] ∨ modifier = ['&'] ∨ modifier = ['!']) := by
  obtain ⟨m', hm, rfl⟩ := Option.map_eq_some_iff.mp h
  cases cs with
  | nil =>
    obtain rfl := Option.some.inj hm
    exact ⟨[], [], rfl, rfl, Or.inl rfl⟩
  | cons c cs =>
    obtain rfl := Option.some.inj hm
    by_cases hc : (c == '&' || c == '!') = true
    · refine ⟨[c], cs, rfl, by rw [if_pos hc]; rfl, Or.inr ?_⟩
      simpa using hc
    · exact ⟨[], c :: cs, rfl, by rw [if_neg hc]; rfl, Or.inl rfl⟩

theorem insertMarker_spec {cs : List Char} {m : Match}
    (h : captured (orElse (word ['=', '=']) (satisfy fun c => c == '=' || c == '~')) cs = some m) :
    ∃ marker rest, cs = marker ++ rest ∧ m = ⟨marker.length, [some marker]⟩ ∧
      (marker = ['=', '='] ∨ marker = ['='] ∨ marker = ['~']) := by
  obtain ⟨m', hm, rfl⟩ := Option.map_eq_some_iff.mp h
  rw [orElse] at hm
  by_cases hword : (['=', '='].isPrefixOf cs) = true
  · obtain ⟨rest, rfl⟩ := List.isPrefixOf_iff_prefix.mp hword
    rw [word, if_pos hword] at hm
    obtain rfl := Option.some.inj hm
    exact ⟨_, rest, rfl, rfl, Or.inl rfl⟩
  · rw [word, if_neg hword] at hm
    cases cs with
    | nil => cases hm
    | cons c cs =>
      simp only [satisfy, Option.ite_none_right_eq_some, Option.some.injEq] at hm
      obtain ⟨hc, rfl⟩ := hm
      refine ⟨[c], cs, rfl, rfl, Or.inr ?_⟩
      simpa using hc

/-- The start of an inline insert: a modifier, a marker, and blanks. -/
theorem inlineInsert_spec {cs : List Char} {m : Match} (h : inlineInsert cs = some m) :
    ∃ pad, cs = m.groupText 0 ++ m.groupText 1 ++ pad ++ cs.drop m.length ∧
      (∀ c ∈ pad, Text.isBlank c) ∧
      (m.groupText 0 = [] ∨ m.groupText 0 = ['&'] ∨ m.groupText 0 = ['!']) ∧
      (m.groupText 1 = ['=', '='] ∨ m.groupText 1 = ['='] ∨ m.groupText 1 = ['~']) := by
  obtain ⟨m₁, m₂, hm₁, hrest, rfl⟩ := sequence_pair (q := sequence [_, blanks]) h
  obtain ⟨m₃, m₄, hm₃, hblanks, rfl⟩ := sequence_pair hrest
  obtain ⟨modifier, rest, rfl, rfl, hmodifier⟩ := modifier_spec hm₁
  dsimp only at hm₃ hblanks
  rw [List.drop_left] at hm₃ hblanks
  obtain ⟨marker, rest, rfl, rfl, hmarker⟩ := insertMarker_spec hm₃
  dsimp only at hblanks
  rw [List.drop_left] at hblanks
  obtain ⟨htake, -⟩ := blanks_spec hblanks
  refine ⟨rest.take m₄.length, ?_, ?_, hmodifier, hmarker⟩
  · have hdrop : (modifier ++ (marker ++ rest)).drop (modifier.length + (marker.length + m₄.length)) =
        rest.drop m₄.length := by
      rw [← List.append_assoc, ← Nat.add_assoc, ← List.drop_drop, ← List.length_append,
        List.drop_left]
    dsimp only
    rw [hdrop, List.append_assoc, List.take_append_drop]
    exact (List.append_assoc _ _ _).symm
  · rw [htake]
    exact fun c hc => List.mem_takeWhile_imp hc

theorem satisfy_spec {p : Char → Bool} {cs : List Char} {m : Match} (h : satisfy p cs = some m) :
    ∃ c rest, cs = c :: rest ∧ p c ∧ m = .plain 1 := by
  cases cs with
  | nil => cases h
  | cons c cs =>
    simp only [satisfy, Option.ite_none_right_eq_some, Option.some.injEq] at h
    exact ⟨c, cs, rfl, h.1, h.2.symm⟩

/-- A pattern that reads something takes part of what is ahead. -/
theorem take_ne_nil_of_some1 {p : Char → Bool} {cs : List Char} {m : Match}
    (h : some1 p cs = some m) : cs.take m.length ≠ [] := by
  unfold some1 at h
  split at h
  · cases h
  · rename_i n hn
    obtain rfl := Option.some.inj h
    cases cs with
    | nil => cases hn
    | cons c cs => nofun

theorem implicitTag_spec {cs : List Char} {m : Match} (h : implicitTag cs = some m) :
    m.group 0 = none ∧ (cs.head? = some '.' ∨ cs.head? = some '#') := by
  obtain ⟨m₁, m₂, hahead, hnone, rfl⟩ := sequence_pair h
  obtain ⟨m₀, hmark, rfl⟩ := Option.map_eq_some_iff.mp hahead
  obtain ⟨m₃, m₄, hfirst, hsecond, rfl⟩ := sequence_pair hmark
  obtain ⟨c, rest, rfl, hc, rfl⟩ := satisfy_spec hfirst
  obtain ⟨c', rest', -, -, rfl⟩ := satisfy_spec hsecond
  obtain rfl := Option.some.inj hnone
  exact ⟨rfl, by simpa using hc⟩

end Pattern

/-- The first characters of a tag: its marker with the name, or the mark of a shorthand. -/
def Dialect.Opens (d : Dialect) (name : Option (List Char)) (text : List Char) : Prop :=
  match d, name with
  | .haml, some name => name ≠ [] ∧ '%' :: name <+: text
  | .jade, some name => name ≠ [] ∧ name <+: text
  | _, none => text.head? = some '.' ∨ text.head? = some '#'

open Pattern in
theorem Dialect.opens_of_tag {d : Dialect} {cs : List Char} {m : Match} (h : d.tag cs = some m) :
    d.Opens (m.group 0) cs := by
  have implicit : implicitTag cs = some m → d.Opens (m.group 0) cs := by
    intro himplicit
    obtain ⟨hgroup, hmark⟩ := implicitTag_spec himplicit
    rw [hgroup]
    cases d <;> exact hmark
  cases d with
  | haml =>
    change hamlTag cs = some m at h
    unfold hamlTag orElse at h
    split at h
    · rename_i m' hname
      obtain rfl := Option.some.inj h
      obtain ⟨m₁, m₂, hmarker, hcaptured, rfl⟩ := sequence_pair hname
      obtain ⟨c, rest, rfl, hc, rfl⟩ := satisfy_spec hmarker
      obtain ⟨m₃, hrun, rfl⟩ := Option.map_eq_some_iff.mp hcaptured
      obtain rfl : c = '%' := by simpa using hc
      exact ⟨take_ne_nil_of_some1 hrun, List.cons_prefix_cons.mpr ⟨rfl, List.take_prefix _ _⟩⟩
    · exact implicit h
  | jade =>
    change jadeTag cs = some m at h
    unfold jadeTag orElse at h
    split at h
    · rename_i m' hname
      obtain rfl := Option.some.inj h
      obtain ⟨m₁, hsequence, rfl⟩ := Option.map_eq_some_iff.mp hname
      obtain ⟨m₂, m₃, hfirst, -, rfl⟩ := sequence_pair hsequence
      obtain ⟨c, rest, rfl, -, rfl⟩ := satisfy_spec hfirst
      refine ⟨?_, List.take_prefix _ _⟩
      rw [Nat.add_comm]
      nofun
    · exact implicit h

end TemplateTree
