import Mathlib.Tactic.Common
import TemplateTree.Proofs.Scans.Balanced
import TemplateTree.Scan.Index

/-!
# What interpolations hold

Between the braces of an interpolation stands text that is not empty and in which braces balance,
where those in strings do not count. A scan finds the closing brace if and only if there is one, and
there is at most one.
-/

set_option autoImplicit false

namespace TemplateTree.Scan

/-- A brace closes the group that a brace opens. -/
def brace? (c : Char) : Option Char := if c == '\x7b' then some '\x7d' else none

/-- A character that means nothing to a scan for interpolations. -/
structure IsInner (c : Char) : Prop where
  quote : isQuote c = false
  opening : c ≠ '\x7b'
  closing : c ≠ '\x7d'

/-- What may stand between the braces of an interpolation, or between two braces in it. -/
abbrev Interior : List Char → Prop := Balanced brace? IsInner

theorem eq_of_brace? {c closer : Char} (h : brace? c = some closer) :
    c = '\x7b' ∧ closer = '\x7d' := by
  unfold brace? at h
  grind

section Steps
variable {depth : Nat} {quote c : Char} {rest : List Char}

theorem closingBrace_escaped : closingBrace depth (some quote) ('\\' :: c :: rest) =
    (closingBrace depth (some quote) rest).map (· + 2) := by
  rw [closingBrace.eq_def]
  rfl

theorem closingBrace_inString (hbackslash : c ≠ '\\') :
    closingBrace depth (some quote) (c :: rest) =
      (closingBrace depth (if c == quote then none else some quote) rest).map (· + 1) := by
  rw [closingBrace.eq_def]
  split <;> simp_all

theorem closingBrace_quote (h : isQuote c) : closingBrace depth none (c :: rest) =
    (closingBrace depth (some c) rest).map (· + 1) := by
  rw [closingBrace.eq_def]
  simp [h]

theorem closingBrace_opening : closingBrace depth none ('\x7b' :: rest) =
    (closingBrace (depth + 1) none rest).map (· + 1) := by
  rw [closingBrace.eq_def]
  rfl

theorem closingBrace_closing : closingBrace (depth + 1) none ('\x7d' :: rest) =
    (closingBrace depth none rest).map (· + 1) := by
  rw [closingBrace.eq_def]
  rfl

theorem closingBrace_inner (h : IsInner c) : closingBrace depth none (c :: rest) =
    (closingBrace depth none rest).map (· + 1) := by
  rw [closingBrace.eq_def]
  simp [h.quote, h.opening, h.closing]

end Steps

section Completeness
variable {depth : Nat} {quote : Char} {cs rest : List Char}

theorem map_add_map_add (o : Option Nat) (m n : Nat) :
    (o.map (· + m)).map (· + n) = o.map (· + (m + n)) := by
  cases o <;> simp [Nat.add_assoc]

theorem closingBrace_protected (h : Protected quote cs) (hbackslash : quote ≠ '\\') :
    closingBrace depth (some quote) (cs ++ quote :: rest) =
      (closingBrace depth none rest).map (· + (cs.length + 1)) := by
  induction h with
  | nil =>
    rw [List.nil_append, closingBrace_inString hbackslash, if_pos (beq_self_eq_true quote)]
    rfl
  | escaped c _ ih =>
    rw [List.cons_append, List.cons_append, closingBrace_escaped, ih, map_add_map_add]
    rfl
  | plain hquote hplain _ ih =>
    rw [List.cons_append, closingBrace_inString hplain, if_neg (by simpa using hquote), ih,
      map_add_map_add]
    rfl

theorem closingBrace_string (h : IsString cs) : closingBrace depth none (cs ++ rest) =
    (closingBrace depth none rest).map (· + cs.length) := by
  cases h with
  | @intro quote inside opens hinside =>
    rw [List.cons_append, List.append_assoc, List.singleton_append, closingBrace_quote opens,
      closingBrace_protected hinside (ne_backslash_of_isQuote opens), map_add_map_add]
    simp

/-- Balanced text is passed over. -/
theorem closingBrace_interior (h : Interior cs) : closingBrace depth none (cs ++ rest) =
    (closingBrace depth none rest).map (· + cs.length) := by
  induction h generalizing depth rest with
  | nil => simp
  | string whole _ ih =>
    rw [List.append_assoc, closingBrace_string whole, ih, map_add_map_add, List.length_append,
      Nat.add_comm]
  | @group c closer inside cs opens _ _ ihinside ih =>
    obtain ⟨rfl, rfl⟩ := eq_of_brace? opens
    rw [List.cons_append, List.append_assoc, List.cons_append, closingBrace_opening, ihinside,
      closingBrace_closing, ih]
    simp only [map_add_map_add, List.length_cons, List.length_append]
    congr 2
    funext n
    omega
  | char isInner _ ih =>
    rw [List.cons_append, closingBrace_inner isInner, ih, map_add_map_add, List.length_cons]

end Completeness

section Soundness
variable {depth : Nat} {cs s : List Char}

/-- Text before the brace that closes so many groups and the interpolation: in every group that is
open and then in the interpolation, balanced text. -/
inductive Closes : Nat → List Char → Prop where
  | last {cs : List Char} (inside : Interior cs) : Closes 0 cs
  | group {depth : Nat} {inside cs : List Char} (within : Interior inside)
      (outer : Closes depth cs) : Closes (depth + 1) (inside ++ '\x7d' :: cs)

namespace Closes

theorem append (h : Interior s) (hc : Closes depth cs) : Closes depth (s ++ cs) := by
  cases hc with
  | last inside => exact .last (h.append inside)
  | group within outer =>
    rw [← List.append_assoc]
    exact .group (h.append within) outer

theorem opens (h : Closes (depth + 1) cs) : Closes depth ('\x7b' :: cs) := by
  cases h with
  | group within outer =>
    have hgroup : Interior ('\x7b' :: (_ ++ ['\x7d'])) := .of_group rfl within
    simpa using outer.append hgroup

end Closes

/-- Text before the closing brace that starts in a string, when a quote is given. -/
def ClosesFrom (depth : Nat) : Option Char → List Char → Prop
  | none, cs => Closes depth cs
  | some quote, cs => ∃ inside rest, Protected quote inside ∧ Closes depth rest ∧
      cs = inside ++ quote :: rest

theorem closesFrom_of_closingBrace {quote : Option Char} {n : Nat}
    (h : closingBrace depth quote cs = some n) (hquote : ∀ q ∈ quote, isQuote q) :
    cs[n]? = some '\x7d' ∧ ClosesFrom depth quote (cs.take n) := by
  fun_induction closingBrace depth quote cs generalizing n with
  | case1 => cases h
  | case2 depth quote c rest ih =>
    obtain ⟨m, hm, rfl⟩ := Option.map_eq_some_iff.mp h
    obtain ⟨hbrace, inside, after, hinside, hcloses, heq⟩ := ih hm hquote
    refine ⟨hbrace, '\\' :: c :: inside, after, .escaped c hinside, hcloses, ?_⟩
    rw [List.take_succ_cons, List.take_succ_cons, heq]
    rfl
  | case3 depth quote c rest hpair ih =>
    obtain ⟨m, hm, rfl⟩ := Option.map_eq_some_iff.mp h
    by_cases hends : c = quote
    · subst hends
      rw [if_pos (beq_self_eq_true c)] at hm ih
      obtain ⟨hbrace, hcloses⟩ := ih hm (by simp)
      exact ⟨hbrace, [], rest.take m, .nil, hcloses, rfl⟩
    · rw [if_neg (by simpa using hends)] at hm ih
      obtain ⟨hbrace, inside, after, hinside, hcloses, heq⟩ := ih hm hquote
      -- a backslash that protects nothing is the end of the text, and no brace is left there
      have hplain : c ≠ '\\' := by
        rintro rfl
        cases rest with
        | nil => cases hm
        | cons head rest => exact hpair head rest rfl rfl
      refine ⟨hbrace, c :: inside, after, .plain hends hplain hinside, hcloses, ?_⟩
      rw [List.take_succ_cons, heq]
      rfl
  | case4 depth c rest hopens ih =>
    obtain ⟨m, hm, rfl⟩ := Option.map_eq_some_iff.mp h
    have hopening : ∀ q ∈ some c, isQuote q := by
      rintro q hq
      rwa [← Option.some.inj hq]
    obtain ⟨hbrace, inside, after, hinside, hcloses, heq⟩ := ih hm hopening
    refine ⟨hbrace, ?_⟩
    have hstring : Interior (c :: (inside ++ [c])) := .of_string (.intro hopens hinside)
    rw [List.take_succ_cons, heq]
    simpa [ClosesFrom] using hcloses.append hstring
  | case5 depth c rest _ hopens ih =>
    obtain ⟨m, hm, rfl⟩ := Option.map_eq_some_iff.mp h
    obtain rfl := beq_iff_eq.mp hopens
    obtain ⟨hbrace, hcloses⟩ := ih hm (by simp)
    exact ⟨hbrace, hcloses.opens⟩
  | case6 c rest _ _ hcloses =>
    obtain rfl := beq_iff_eq.mp hcloses
    obtain rfl := Option.some.inj h
    exact ⟨rfl, .last .nil⟩
  | case7 c rest _ _ hends depth ih =>
    obtain ⟨m, hm, rfl⟩ := Option.map_eq_some_iff.mp h
    obtain rfl := beq_iff_eq.mp hends
    obtain ⟨hbrace, hcloses⟩ := ih hm (by simp)
    exact ⟨hbrace, .group .nil hcloses⟩
  | case8 depth c rest hopens hopening hclosing ih =>
    obtain ⟨m, hm, rfl⟩ := Option.map_eq_some_iff.mp h
    obtain ⟨hbrace, hcloses⟩ := ih hm (by simp)
    have hinner : IsInner c :=
      ⟨by simpa using hopens, by simpa using hopening, by simpa using hclosing⟩
    exact ⟨hbrace, hcloses.append (.of_char hinner)⟩

/-- The closing brace of a text that an interpolation starts is the first one with balanced text
before it. -/
theorem closingBrace_eq_some_iff {n : Nat} : closingBrace 0 none cs = some n ↔
    cs[n]? = some '\x7d' ∧ Interior (cs.take n) := by
  constructor
  · intro h
    obtain ⟨hbrace, hcloses⟩ := closesFrom_of_closingBrace h (by simp)
    cases hcloses with
    | last inside => exact ⟨hbrace, inside⟩
  · rintro ⟨hbrace, hinside⟩
    obtain ⟨hlt, hget⟩ := List.getElem?_eq_some_iff.mp hbrace
    have hsplit : cs.take n ++ '\x7d' :: cs.drop (n + 1) = cs := by
      rw [← hget, ← List.drop_eq_getElem_cons hlt, List.take_append_drop]
    rw [← hsplit, closingBrace_interior hinside, closingBrace.eq_def]
    simp [isQuote, Nat.le_of_lt hlt]

end Soundness

theorem interpolation_eq_some_iff {cs : List Char} {n : Nat} : interpolation cs = some n ↔
    ∃ body m, cs = '#' :: '\x7b' :: body ∧ n = m + 2 ∧ m ≠ 0 ∧
      closingBrace 0 none body = some m := by
  constructor
  · intro h
    unfold interpolation at h
    split at h
    · rename_i body
      split at h
      · cases h
      · cases h
      · rename_i m hne hbrace
        exact ⟨body, m, rfl, (Option.some.inj h).symm, hne, hbrace⟩
    · cases h
  · rintro ⟨body, m, rfl, rfl, hne, hbrace⟩
    obtain ⟨k, rfl⟩ := Nat.exists_eq_succ_of_ne_zero hne
    simp only [interpolation, hbrace]

/-- An index of a text that is the closing brace of an interpolation that starts at `start`. -/
structure ClosesInterpolation (text : List Char) (start stop : Nat) : Prop where
  opens : Text.slice text start ↑(start + 2) = ['#', '\x7b']
  closes : text[stop]? = some '\x7d'
  ne_nil : Text.slice text ↑(start + 2) stop ≠ []
  inside : Interior (Text.slice text ↑(start + 2) stop)

theorem closesInterpolation_iff {text : List Char} {start stop : Nat} :
    ClosesInterpolation text start stop ↔
      ∃ n, interpolation (text.drop start) = some n ∧ stop = start + n := by
  -- the body starts two characters further on, and an index of it is one of the text
  have hbody : (text.drop start).drop 2 = text.drop (start + 2) := List.drop_drop
  have hchar : ∀ m, (text.drop (start + 2))[m]? = text[start + (m + 2)]? := by
    intro m
    rw [List.getElem?_drop]
    congr 1
    omega
  have hslice : ∀ m, Text.slice text ↑(start + 2) ↑(start + (m + 2)) =
      (text.drop (start + 2)).take m := by
    intro m
    rw [Text.slice_natCast]
    congr 1
    omega
  constructor
  · rintro ⟨hopens, hcloses, hne, hinside⟩
    obtain ⟨m, rfl⟩ : ∃ m, stop = start + (m + 2) := by
      refine ⟨stop - (start + 2), ?_⟩
      by_contra hbefore
      rw [Text.slice_natCast, show stop - (start + 2) = 0 by omega] at hne
      exact hne rfl
    rw [Text.slice_natCast, Nat.add_sub_cancel_left] at hopens
    rw [hslice] at hne hinside
    rw [← hchar] at hcloses
    have hsplit : text.drop start = '#' :: '\x7b' :: text.drop (start + 2) := by
      rw [← hbody, ← List.take_append_drop 2 (text.drop start), hopens]
      simp
    have hbrace := closingBrace_eq_some_iff.mpr ⟨hcloses, hinside⟩
    refine ⟨m + 2, interpolation_eq_some_iff.mpr ⟨_, m, hsplit, rfl, ?_, hbrace⟩, rfl⟩
    rintro rfl
    exact hne rfl
  · rintro ⟨n, hscan, rfl⟩
    obtain ⟨body, m, hsplit, rfl, hne, hbrace⟩ := interpolation_eq_some_iff.mp hscan
    have hrest : body = text.drop (start + 2) := by
      rw [← hbody, hsplit]
      rfl
    rw [hrest] at hbrace
    obtain ⟨hcloses, hinside⟩ := closingBrace_eq_some_iff.mp hbrace
    refine ⟨?_, (hchar m) ▸ hcloses, ?_, ?_⟩
    · rw [Text.slice_natCast, Nat.add_sub_cancel_left, hsplit]
      rfl
    · rw [hslice]
      cases hcs : text.drop (start + 2) with
      | nil =>
        rw [hcs] at hcloses
        cases hcloses
      | cons =>
        obtain ⟨k, rfl⟩ := Nat.exists_eq_succ_of_ne_zero hne
        exact List.cons_ne_nil _ _
    · rw [hslice]
      exact hinside

/-- A scan from an index on stops at the closing brace of the interpolation that starts there, which
is the only one. It finds nothing if and only if there is none. -/
theorem interpolationAt_closes (text : List Char) (start : Nat) :
    (∀ stop : Int, interpolationAt text start = .ok (some stop) ↔
      ∃ n : Nat, stop = n ∧ ClosesInterpolation text start n) ∧
    (∀ m n, ClosesInterpolation text start m → ClosesInterpolation text start n → m = n) ∧
    (interpolationAt text start = .ok none ↔ ∀ n, ¬ ClosesInterpolation text start n) := by
  simp only [interpolationAt_natCast, Except.ok.injEq, stopOf, closesInterpolation_iff]
  refine ⟨fun stop => ?_, ?_, ?_⟩
  · rw [Option.map_eq_some_iff]
    constructor
    · rintro ⟨n, hscan, rfl⟩
      exact ⟨start + n, rfl, n, hscan, rfl⟩
    · rintro ⟨_, rfl, n, hscan, rfl⟩
      exact ⟨n, hscan, rfl⟩
  · rintro _ _ ⟨m, hm, rfl⟩ ⟨n, hn, rfl⟩
    rw [Option.some.inj (hm.symm.trans hn)]
  · rw [Option.map_eq_none_iff]
    constructor
    · rintro hnone _ ⟨n, hscan, -⟩
      rw [hnone] at hscan
      cases hscan
    · intro h
      refine Option.eq_none_iff_forall_ne_some.mpr fun n hscan => h _ ⟨n, hscan, rfl⟩

/-- Neither the brace in the string nor the one of the inner group closes the interpolation. -/
example : interpolation "#\x7b'\x7d' + a \x7b b \x7d\x7d c".toList = some 15 := by decide +kernel

end TemplateTree.Scan
