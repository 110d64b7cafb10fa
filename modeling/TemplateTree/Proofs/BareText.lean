import TemplateTree.Proofs.Written.Strings

/-!
# Where bare text is refused

Bare text is read from the left, a backslash protecting the character after it and a whole
expression between braces passed over. It is refused if and only if this comes to an opening that
no whole expression follows, or to a backslash before a hash that opens nothing.
-/

set_option autoImplicit false

namespace TemplateTree

/-- Reading bare text comes to a place where `P` holds. -/
inductive Reaches (P : List Char → Prop) : List Char → Prop where
  | here {cs : List Char} (holds : P cs) : Reaches P cs
  | escaped {c : Char} {cs : List Char} (later : Reaches P cs) : Reaches P ('\\' :: c :: cs)
  | insert {cs : List Char} {n : Nat} (whole : Scan.interpolation cs = some n)
      (later : Reaches P (cs.drop (n + 1))) : Reaches P cs
  | plain {c : Char} {cs : List Char} (backslash : c ≠ '\\')
      (opens : ¬ ['#', '\x7b'] <+: c :: cs) (later : Reaches P cs) : Reaches P (c :: cs)

/-- An opening that no whole expression follows. -/
structure Unfinished (cs : List Char) : Prop where
  opens : ['#', '\x7b'] <+: cs
  unread : Scan.interpolation cs = none

/-- A backslash before a hash that opens nothing. -/
structure StrayHash (cs : List Char) : Prop where
  hash : ['\\', '#'] <+: cs
  opens : ¬ ['#', '\x7b'] <+: cs.tail

/-- Bare text cannot be read on. -/
def Blocked (cs : List Char) : Prop := Unfinished cs ∨ StrayHash cs

namespace Scan

theorem opens_of_interpolation {cs : List Char} {n : Nat} (h : interpolation cs = some n) :
    ['#', '\x7b'] <+: cs := by
  obtain ⟨body, m, rfl, -⟩ := interpolation_eq_some_iff.mp h
  exact ⟨body, rfl⟩

end Scan

namespace Reaches
variable {P Q : List Char → Prop} {c : Char} {cs : List Char}

theorem imp (himp : ∀ cs, P cs → Q cs) (h : Reaches P cs) : Reaches Q cs := by
  induction h with
  | here holds => exact .here (himp _ holds)
  | escaped _ ih => exact .escaped ih
  | insert whole _ ih => exact .insert whole ih
  | plain backslash opens _ ih => exact .plain backslash opens ih

theorem or_iff : Reaches (fun cs => P cs ∨ Q cs) cs ↔ Reaches P cs ∨ Reaches Q cs := by
  constructor
  · intro h
    induction h with
    | here holds => exact holds.imp .here .here
    | escaped _ ih => exact ih.imp .escaped .escaped
    | insert whole _ ih => exact ih.imp (.insert whole) (.insert whole)
    | plain backslash opens _ ih => exact ih.imp (.plain backslash opens) (.plain backslash opens)
  · rintro (h | h)
    · exact h.imp fun _ => Or.inl
    · exact h.imp fun _ => Or.inr

theorem escaped_iff (h : ¬ P ('\\' :: c :: cs)) : Reaches P ('\\' :: c :: cs) ↔ Reaches P cs := by
  refine ⟨fun hreaches => ?_, .escaped⟩
  cases hreaches with
  | here holds => exact absurd holds h
  | escaped later => exact later
  | insert whole => exact absurd (Scan.opens_of_interpolation whole) (by simp)
  | plain backslash => exact absurd rfl backslash

theorem insert_iff {n : Nat} (hn : Scan.interpolation cs = some n) (h : ¬ P cs) :
    Reaches P cs ↔ Reaches P (cs.drop (n + 1)) := by
  refine ⟨fun hreaches => ?_, .insert hn⟩
  have hopens := Scan.opens_of_interpolation hn
  cases hreaches with
  | here holds => exact absurd holds h
  | escaped => exact absurd hopens (by simp)
  | insert whole later =>
    obtain rfl := Option.some.inj (hn.symm.trans whole)
    exact later
  | plain _ opens => exact absurd hopens opens

theorem plain_iff (hbackslash : c ≠ '\\') (hopens : ¬ ['#', '\x7b'] <+: c :: cs)
    (h : ¬ P (c :: cs)) : Reaches P (c :: cs) ↔ Reaches P cs := by
  refine ⟨fun hreaches => ?_, .plain hbackslash hopens⟩
  cases hreaches with
  | here holds => exact absurd holds h
  | escaped => exact absurd rfl hbackslash
  | insert whole => exact absurd (Scan.opens_of_interpolation whole) hopens
  | plain _ _ later => exact later

/-- Where no opening stands, none without a whole expression is reached. -/
theorem opens_of_unfinished (h : Reaches Unfinished cs) : ['#', '\x7b'] <:+: cs := by
  induction h with
  | here holds => exact holds.opens.isInfix
  | escaped _ ih => exact List.infix_cons (List.infix_cons ih)
  | insert whole => exact (Scan.opens_of_interpolation whole).isInfix
  | plain _ _ _ ih => exact List.infix_cons ih

end Reaches

namespace Blocked
variable {cs : List Char}

theorem not_of (hopens : ¬ ['#', '\x7b'] <+: cs)
    (hhash : ['\\', '#'] <+: cs → ['#', '\x7b'] <+: cs.tail) : ¬ Blocked cs := by
  rintro (h | h)
  · exact hopens h.opens
  · exact h.opens (hhash h.hash)

theorem not_whole {n : Nat} (h : Scan.interpolation cs = some n) : ¬ Blocked cs := by
  obtain ⟨rest, hrest⟩ := Scan.opens_of_interpolation h
  rintro (hblocked | hblocked)
  · cases h.symm.trans hblocked.unread
  · exact absurd hblocked.hash (by simp [← hrest])

theorem not_reaches_nil : ¬ Reaches Blocked [] := by
  intro h
  cases h with
  | here holds => exact not_of (by simp) (by simp) holds
  | insert whole => exact absurd (Scan.opens_of_interpolation whole) (by simp)

/-- A run of text is read, and the reading goes on behind it. -/
theorem reaches_drop_bareRun (cs : List Char) :
    Reaches Blocked cs ↔ Reaches Blocked (cs.drop (Pattern.bareRun cs)) := by
  fun_induction Pattern.bareRun cs with
  | case1 | case3 | case5 => rfl
  | case2 rest ih =>
    have hescaped : ¬ Blocked ('\\' :: '#' :: '\x7b' :: rest) := not_of (by simp) (by simp)
    have hbrace : ¬ Blocked ('\x7b' :: rest) := not_of (by simp) (by simp)
    calc Reaches Blocked ('\\' :: '#' :: '\x7b' :: rest)
      _ ↔ Reaches Blocked ('\x7b' :: rest) := Reaches.escaped_iff hescaped
      _ ↔ Reaches Blocked rest := Reaches.plain_iff (by simp) (by simp) hbrace
      _ ↔ _ := ih
  | case4 c rest _ hhash ih =>
    have hescaped : ¬ Blocked ('\\' :: c :: rest) := by
      refine not_of (by simp) fun h => ?_
      obtain ⟨-, hc⟩ := List.cons_prefix_cons.mp h
      exact absurd (List.cons_prefix_cons.mp hc).1.symm hhash
    exact (Reaches.escaped_iff hescaped).trans ih
  | case6 c rest _ _ hpair hopens ih =>
    have hnot : ¬ ['#', '\x7b'] <+: c :: rest := by
      rintro ⟨others, hothers⟩
      obtain ⟨rfl, rfl⟩ := List.cons.inj hothers
      exact hopens _ rfl rfl
    by_cases hc : c = '\\'
    · -- the backslash is the last character
      obtain rfl : rest = [] := by
        cases rest with
        | nil => rfl
        | cons d rest => exact (hpair d rest hc rfl).elim
      subst hc
      refine iff_of_false (fun h => ?_) not_reaches_nil
      cases h with
      | here holds => exact not_of (by simp) (by simp) holds
      | insert whole => exact hnot (Scan.opens_of_interpolation whole)
      | plain backslash => exact backslash rfl
    · have hblocked : ¬ Blocked (c :: rest) :=
        not_of hnot fun h => absurd (List.cons_prefix_cons.mp h).1.symm hc
      exact (Reaches.plain_iff hc hnot hblocked).trans ih

/-- Where no run of text and no expression starts, the text is at its end or cannot be read on. -/
theorem of_bareRun_eq_zero (hne : cs ≠ []) (hrun : Pattern.bareRun cs = 0)
    (hnone : Scan.interpolation cs = none) : Blocked cs := by
  fun_cases Pattern.bareRun cs with
  | case1 => exact absurd rfl hne
  | case3 rest hopens =>
    refine .inr ⟨by simp, ?_⟩
    rintro ⟨others, hothers⟩
    exact hopens others (List.cons.inj hothers).2.symm
  | case5 rest => exact .inl ⟨by simp, hnone⟩
  | case2 | case4 | case6 => simp_all [Pattern.bareRun]

end Blocked

/-- Bare text is read up to where it ends or cannot be read on. -/
theorem Part.reaches_read (start : Int) (cs : List Char) : ∃ n ≤ cs.length,
    (read .bare start cs).2 = start + n ∧
      (cs.drop n = [] ∧ ¬ Reaches Blocked cs ∨ cs.drop n ≠ [] ∧ Reaches Blocked cs) := by
  fun_induction read Quoting.bare start cs with
  | case1 start cs hn n parts stop heq ih =>
    rw [heq] at ih
    obtain ⟨m, hm, hstop, hreaches⟩ := ih
    have hle : n ≤ cs.length := Pattern.bareRun_le cs
    rw [List.length_drop] at hm
    have hrun : Reaches Blocked cs ↔ Reaches Blocked (cs.drop n) := Blocked.reaches_drop_bareRun cs
    rw [List.drop_drop, ← hrun] at hreaches
    exact ⟨n + m, by omega, by push_cast; omega, hreaches⟩
  | case2 start cs hn n hs hlt parts stop heq ih =>
    rw [heq] at ih
    obtain ⟨m, hm, hstop, hreaches⟩ := ih
    rw [List.length_drop] at hm
    rw [List.drop_drop, ← Reaches.insert_iff hs (Blocked.not_whole hs)] at hreaches
    exact ⟨n + 1 + m, by omega, by push_cast; omega, hreaches⟩
  | case3 start cs hn hs =>
    refine ⟨0, Nat.zero_le _, by simp, ?_⟩
    rw [List.drop_zero]
    by_cases hnil : cs = []
    · exact .inl ⟨hnil, hnil ▸ Blocked.not_reaches_nil⟩
    · exact .inr ⟨hnil, .here (Blocked.of_bareRun_eq_zero hnil (Nat.eq_zero_of_not_pos hn) hs)⟩

namespace Production
variable {r : Reading}

theorem bareString_refused (h : r.cursor.Inside) (hreaches : Reaches Blocked r.cursor.rest) :
    ∃ e r', (interpolatedString .bare).run r = (.error (.refused e), r') := by
  obtain ⟨k, -, hstop, ⟨-, hnot⟩ | ⟨hne, -⟩⟩ := Part.reaches_read r.cursor.column r.cursor.rest
  · exact absurd hreaches hnot
  · obtain ⟨e, he⟩ := (run_stringBody h .bare hstop).2 hne
    exact ⟨e, _, he⟩

theorem bareString_ok (h : r.cursor.Inside) (hreaches : ¬ Reaches Blocked r.cursor.rest) :
    ∃ n r', (interpolatedString .bare).run r = (.ok n, r') := by
  obtain ⟨k, -, hstop, ⟨hnil, -⟩ | ⟨-, hblocked⟩⟩ := Part.reaches_read r.cursor.column r.cursor.rest
  · obtain ⟨stopped, hok⟩ := (run_stringBody h .bare hstop).1 hnil
    exact ⟨_, _, hok⟩
  · exact absurd hblocked hreaches

/-- Bare text is refused if it comes to an opening that no whole expression follows, or to a
backslash before a hash that opens nothing, and it is read otherwise. -/
theorem bareString_iff (h : r.cursor.Inside) :
    ((∃ e r', (interpolatedString .bare).run r = (.error (.refused e), r')) ↔
      Reaches Unfinished r.cursor.rest ∨ Reaches StrayHash r.cursor.rest) ∧
    ((∃ n r', (interpolatedString .bare).run r = (.ok n, r')) ↔
      ¬ (Reaches Unfinished r.cursor.rest ∨ Reaches StrayHash r.cursor.rest)) := by
  rw [← Reaches.or_iff]
  by_cases hreaches : Reaches Blocked r.cursor.rest
  · obtain ⟨e, r', he⟩ := bareString_refused h hreaches
    refine ⟨iff_of_true ⟨e, r', he⟩ hreaches, iff_of_false ?_ (not_not_intro hreaches)⟩
    rintro ⟨n, r'', hok⟩
    cases he.symm.trans hok
  · obtain ⟨n, r', hok⟩ := bareString_ok h hreaches
    refine ⟨iff_of_false ?_ hreaches, iff_of_true ⟨n, r', hok⟩ hreaches⟩
    rintro ⟨e, r'', he⟩
    cases he.symm.trans hok

/-- A hash after two backslashes is read, and one after three backslashes is refused. -/
theorem bareString_iff_strayHash :
    Reaches StrayHash (Reading.onFirstLine "\\\\#a\\\\\\#b").cursor.rest ∧
      ∃ e r', (interpolatedString .bare).run (.onFirstLine "\\\\#a\\\\\\#b") =
        (.error (.refused e), r') := by
  have hinside : (Reading.onFirstLine "\\\\#a\\\\\\#b").cursor.Inside :=
    (Reading.standsBefore_onFirstLine (by decide)).inside
  have hreaches : Reaches StrayHash (Reading.onFirstLine "\\\\#a\\\\\\#b").cursor.rest :=
    .escaped (.plain (by decide) (by decide) (.plain (by decide) (by decide)
      (.escaped (.here ⟨by decide, by decide⟩))))
  exact ⟨hreaches, (bareString_iff hinside).1.mpr (.inr hreaches)⟩

/-- No opening stands in the text, and still it is refused. -/
theorem bareString_refused_without_opening : ¬ ∀ {r : Reading}, r.cursor.Inside →
    ((∃ e r', (interpolatedString .bare).run r = (.error (.refused e), r')) ↔
      Reaches Unfinished r.cursor.rest) := by
  intro hall
  have hinside : (Reading.onFirstLine "a\\#x").cursor.Inside :=
    (Reading.standsBefore_onFirstLine (by decide)).inside
  have hreaches : Reaches Blocked (Reading.onFirstLine "a\\#x").cursor.rest :=
    .plain (by decide) (by decide) (.here (.inr ⟨by decide, by decide⟩))
  have hunfinished := (hall hinside).mp (bareString_refused hinside hreaches)
  exact absurd (Reaches.opens_of_unfinished hunfinished) (by decide)

end Production

end TemplateTree
