import Mathlib.Logic.Relation
import TemplateTree.Proofs.Tabs.Entries

/-!
# Tabs between the attributes of a list

In a list in round brackets blanks of every kind separate two entries, but only a space ends the
value of an entry. So a tab may stand in place of a space between two entries, unless that space is
where the expression of a value stops: then the value goes on with the tab.
-/

set_option autoImplicit false

namespace TemplateTree

open Text

namespace Production

open Pattern
open Relation (ReflTransGen)

variable {r r' s : Reading} {n : Node}

/-- From the reading before an entry to the one before the next entry on the line. -/
inductive NextEntry : Reading → Reading → Prop where
  | intro {r s : Reading} {n : Node} {m : Match} (reads : htmlEntry.run r = (.ok n, s))
      (goesOn : htmlClose s.cursor.rest = none)
      (separated : htmlSeparator s.cursor.rest = some m) : NextEntry r (s.skip m.length)

/-- The character at a column stands between the entry before a reading and the next entry. -/
inductive SeparatesAt : Reading → Nat → Prop where
  | intro {r s : Reading} {n : Node} {m : Match} {i : Nat} (reads : htmlEntry.run r = (.ok n, s))
      (goesOn : htmlClose s.cursor.rest = none)
      (separated : htmlSeparator s.cursor.rest = some m) (behind : s.cursor.column ≤ i)
      (before : i < s.cursor.column + m.length) : SeparatesAt r i

/-- The entry before a reading has a value whose expression stops at a column. -/
def EndsValueAt (r : Reading) (i : Nat) : Prop :=
  ∃ m, valueStop? r.cursor.rest = some m ∧ (i : Int) = r.cursor.column + m

/-- All that differs on the rest of the line stands between two entries. -/
def Between (r r' : Reading) : Prop :=
  ∀ i : Nat, r.cursor.column ≤ i → r'.cursor.line[i]? ≠ r.cursor.line[i]? →
    ∃ e, ReflTransGen NextEntry r e ∧ SeparatesAt e i

section Columns
variable {e : Reading} {i k : Nat}

/-- Where an entry ends. -/
theorem entry_column (h : r.cursor.Inside) (reads : htmlEntry.run r = (.ok n, s)) :
    s.cursor.Inside ∧ s.cursor.line = r.cursor.line ∧
      ∃ k, EntryAt r n k ∧ s.cursor = (r.skip k).cursor ∧
        s.cursor.column = r.cursor.column + k := by
  obtain ⟨k, he, hcursor⟩ := exists_entryAt h reads
  refine ⟨?_, ?_, k, he, hcursor, ?_⟩
  · rw [hcursor]
    exact Reading.inside_skip h k
  · rw [hcursor]
    rfl
  · rw [hcursor]
    exact Cursor.column_skip h (he.le_length h)

theorem NextEntry.onward (h : r.cursor.Inside) (hn : NextEntry r e) :
    e.cursor.Inside ∧ e.cursor.line = r.cursor.line ∧ r.cursor.column ≤ e.cursor.column := by
  cases hn with
  | @intro s _ m reads _ separated =>
    obtain ⟨hinside, hline, k, -, -, hcolumn⟩ := entry_column h reads
    have hskip : (s.skip m.length).cursor.column = s.cursor.column + m.length :=
      Cursor.column_skip hinside (within_htmlSeparator separated)
    exact ⟨Reading.inside_skip hinside _, hline, by omega⟩

theorem onward_of_reflTransGen (h : r.cursor.Inside) (hr : ReflTransGen NextEntry r e) :
    e.cursor.Inside ∧ e.cursor.line = r.cursor.line ∧ r.cursor.column ≤ e.cursor.column := by
  induction hr with
  | refl => exact ⟨h, rfl, Int.le_refl _⟩
  | tail _ hn ih =>
    obtain ⟨hinside, hline, hle⟩ := ih
    obtain ⟨hinside', hline', hle'⟩ := hn.onward hinside
    exact ⟨hinside', hline'.trans hline, Int.le_trans hle hle'⟩

/-- What separates two entries stands behind the first of them, and so behind those before. -/
theorem SeparatesAt.le_of_reads (h : r.cursor.Inside) (hr : ReflTransGen NextEntry r e)
    (hi : SeparatesAt e i) (reads : htmlEntry.run r = (.ok n, s)) : s.cursor.column ≤ i := by
  rcases hr.cases_head with rfl | ⟨next, hnext, hlater⟩
  · cases hi with
    | intro reads' _ _ behind _ =>
      obtain ⟨-, rfl⟩ := Prod.mk.inj (reads.symm.trans reads')
      exact behind
  · have hle : s.cursor.column ≤ next.cursor.column := by
      cases hnext with
      | @intro t _ m reads' _ separated =>
        obtain ⟨-, rfl⟩ := Prod.mk.inj (reads.symm.trans reads')
        have hskip : (s.skip m.length).cursor.column = s.cursor.column + m.length :=
          Cursor.column_skip (entry_column h reads).1 (within_htmlSeparator separated)
        omega
    obtain ⟨hinside, -, hon⟩ := onward_of_reflTransGen (hnext.onward h).1 hlater
    cases hi with
    | intro reads' _ _ behind _ =>
      obtain ⟨-, -, k, -, -, hcolumn⟩ := entry_column hinside reads'
      omega

/-- A character of the rest of a line, by its column. -/
theorem exists_getElem?_rest (h : r.cursor.Retabs r'.cursor) (j : Nat) :
    ∃ i : Nat, (i : Int) = r.cursor.column + j ∧ r.cursor.rest[j]? = r.cursor.line[i]? ∧
      r'.cursor.rest[j]? = r'.cursor.line[i]? := by
  obtain ⟨c, hc, -, hrest⟩ := Cursor.exists_rest h.inside
  obtain ⟨c', hc', -, hrest'⟩ := Cursor.exists_rest h.inside'
  obtain rfl : c' = c := by
    have hcolumn := h.column
    omega
  refine ⟨c' + j, by omega, ?_, ?_⟩
  · rw [hrest, List.getElem?_drop]
  · rw [hrest', List.getElem?_drop]

/-- An entry itself is the same on both lines. -/
theorem Between.take_eq (hb : Between r r') (h : r.cursor.Retabs r'.cursor)
    (reads : htmlEntry.run r = (.ok n, s)) (hcolumn : s.cursor.column = r.cursor.column + k) :
    r'.cursor.rest.take k = r.cursor.rest.take k := by
  refine List.ext_getElem? fun j => ?_
  by_cases hj : j < k
  · rw [List.getElem?_take_of_lt hj, List.getElem?_take_of_lt hj]
    obtain ⟨i, hi, hget, hget'⟩ := exists_getElem?_rest h j
    rw [hget, hget']
    by_contra hne
    obtain ⟨e, he, hseparates⟩ := hb i (by omega) hne
    have hle := hseparates.le_of_reads h.inside he reads
    omega
  · rw [List.getElem?_take_eq_none (by omega), List.getElem?_take_eq_none (by omega)]

/-- An entry is read alike if the character that the expression of its value stops at is the
same. -/
theorem Between.entry_retabs (hb : Between r r') (h : r.cursor.Retabs r'.cursor)
    (reads : htmlEntry.run r = (.ok n, s))
    (hends : ∀ i, EndsValueAt r i → r'.cursor.line[i]? = r.cursor.line[i]?) :
    ∃ s', htmlEntry.run r' = (.ok n, s') ∧ s.cursor.Retabs s'.cursor := by
  obtain ⟨-, -, k, he, hcursor, hcolumn⟩ := entry_column h.inside reads
  have he' := he.retabs h (hb.take_eq h reads hcolumn) fun m hm => by
    obtain ⟨i, hi, hget, hget'⟩ := exists_getElem?_rest h m
    rw [hget, hget']
    exact hends i ⟨m, hm, hi⟩
  obtain ⟨s', hrun, hcursor'⟩ := he'.run h.inside'
  refine ⟨s', hrun, ?_⟩
  rw [hcursor, hcursor']
  exact h.skip k

/-- What differs on a line differs behind the blanks after an entry, or in them. -/
theorem Between.next {m : Match} (hb : Between r r') (h : r.cursor.Inside)
    (reads : htmlEntry.run r = (.ok n, s)) (separated : htmlSeparator s.cursor.rest = some m)
    {u' : Reading} (hline : u'.cursor.line = r'.cursor.line) : Between (s.skip m.length) u' := by
  intro i hi hne
  obtain ⟨hinside, hsame, k, -, -, hcolumn⟩ := entry_column h reads
  have hskip : (s.skip m.length).cursor.column = s.cursor.column + m.length :=
    Cursor.column_skip hinside (within_htmlSeparator separated)
  obtain ⟨e, he, hseparates⟩ := hb i (by omega) (by rw [← hline, ← hsame]; exact hne)
  rcases he.cases_head with rfl | ⟨next, hnext, hlater⟩
  · cases hseparates with
    | intro reads' _ separated' _ before =>
      obtain ⟨-, rfl⟩ := Prod.mk.inj (reads.symm.trans reads')
      obtain rfl := Option.some.inj (separated.symm.trans separated')
      omega
  · cases hnext with
    | intro reads' _ separated' =>
      obtain ⟨-, rfl⟩ := Prod.mk.inj (reads.symm.trans reads')
      obtain rfl := Option.some.inj (separated.symm.trans separated')
      exact ⟨e, hlater, hseparates⟩

end Columns

section Lists
variable {found nodes : List Node}

/-- One entry and the blanks behind it on both lines. -/
theorem Between.turn_retabs (found : List Node) {m : Match} (hb : Between r r')
    (h : r.cursor.Retabs r'.cursor)
    (reads : htmlEntry.run r = (.ok n, s)) (goesOn : htmlClose s.cursor.rest = none)
    (separated : htmlSeparator s.cursor.rest = some m) (stays : (s.skip m.length).cursor.rest ≠ [])
    (hends : ∀ i, EndsValueAt r i → r'.cursor.line[i]? = r.cursor.line[i]?) :
    ∃ u', (repeatWhile nextHtmlEntry found).run r' =
        (repeatWhile nextHtmlEntry (found ++ [n])).run u' ∧
      (s.skip m.length).cursor.Retabs u'.cursor ∧ Between (s.skip m.length) u' ∧
      (s.skip m.length).cursor.line = r.cursor.line ∧ u'.cursor.line = r'.cursor.line := by
  obtain ⟨s', reads', hs⟩ := hb.entry_retabs h reads hends
  obtain ⟨m', separated', hlength⟩ := blind_htmlSeparator.exists_eq_some hs.rest separated
  have hu : (s.skip m.length).cursor.Retabs (s'.skip m'.length).cursor := by
    rw [hlength]
    exact hs.skip _
  have stays' : (s'.skip m'.length).cursor.rest ≠ [] := by
    rwa [← List.length_pos_iff, hu.length_rest, List.length_pos_iff]
  have hstep := run_nextHtmlEntry_separates found hs.inside' reads'
    (blind_htmlClose.eq_none hs.rest goesOn) separated' stays'
  have hlt := ((turns_of_run h.inside' hstep).onward h.inside').2 _ rfl
  have hline : (s'.skip m'.length).cursor.line = r'.cursor.line :=
    (entry_column h.inside' reads').2.1
  exact ⟨_, run_repeatWhile_yield hstep hlt, hu, hb.next h.inside reads separated hline,
    (entry_column h.inside reads).2.1, hline⟩

/-- A list on one line ends with the entry that is read, or it goes on behind blanks. -/
theorem turns_on_line (h : r.cursor.Inside)
    (hrun : (repeatWhile nextHtmlEntry found).run r = (.ok nodes, s))
    (hline : s.cursor.entered = r.cursor.entered) : ∃ n t, htmlEntry.run r = (.ok n, t) ∧
      ((∃ m, htmlClose t.cursor.rest = some m ∧ nodes = found ++ [n] ∧ s = t.skip m.length) ∨
        ∃ m, htmlClose t.cursor.rest = none ∧ htmlSeparator t.cursor.rest = some m ∧
          (t.skip m.length).cursor.rest ≠ [] ∧
          (t.skip m.length).cursor.remaining < r.cursor.remaining ∧
          (repeatWhile nextHtmlEntry (found ++ [n])).run (t.skip m.length) = (.ok nodes, s) ∧
          s.cursor.entered = (t.skip m.length).cursor.entered) := by
  rcases turns_of_list h hrun with hturn | ⟨more, t, hturn, hlt, hrest⟩
  · cases hturn with
    | closes reads closed => exact ⟨_, _, reads, Or.inl ⟨_, closed, rfl, rfl⟩⟩
  · cases hturn with
    | leaves reads onward enters =>
      have hbefore := ((reads_htmlEntry (i := true) h).of_run reads).1.cursor.entered
      have hafter := (prefix_of_list onward.inside hrest).1.cursor.entered
      omega
    | separates reads goesOn separated stays =>
      obtain ⟨-, -, k, -, hcursor, -⟩ := entry_column h reads
      refine ⟨_, _, reads, Or.inr ⟨_, goesOn, separated, stays, hlt, hrest, ?_⟩⟩
      rw [hline, Reading.skip, hcursor]
      rfl

/-- A list on one line is read alike if the characters are the same that the expressions of its
values stop at. -/
theorem Between.list_retabs (hb : Between r r') (h : r.cursor.Retabs r'.cursor)
    (hrun : (repeatWhile nextHtmlEntry found).run r = (.ok nodes, s))
    (hline : s.cursor.entered = r.cursor.entered)
    (hends : ∀ e i, ReflTransGen NextEntry r e → EndsValueAt e i →
      r'.cursor.line[i]? = r.cursor.line[i]?) :
    ∃ s', (repeatWhile nextHtmlEntry found).run r' = (.ok nodes, s') ∧
      s.cursor.Retabs s'.cursor := by
  -- on what is left of the source, of which every turn reads some
  induction hn : r.cursor.remaining using Nat.strongRecOn generalizing found r r' with
  | ind k ih =>
    subst hn
    obtain ⟨n, t, reads,
      ⟨m, closed, rfl, rfl⟩ | ⟨m, goesOn, separated, stays, hlt, hrest, hstay⟩⟩ :=
      turns_on_line h.inside hrun hline
    · obtain ⟨t', reads', ht⟩ := hb.entry_retabs h reads (hends r · .refl)
      obtain ⟨m', closed', hlength⟩ := blind_htmlClose.exists_eq_some ht.rest closed
      have hstep := run_nextHtmlEntry_closes found ht.inside' reads' closed'
      refine ⟨_, run_repeatWhile_done hstep, ?_⟩
      rw [hlength]
      exact ht.skip _
    · obtain ⟨u', hstep, hu, hnext, hsame, hsame'⟩ :=
        hb.turn_retabs found h reads goesOn separated stays (hends r · .refl)
      rw [hstep]
      refine ih _ hlt hnext hu hrest hstay (fun e i he hi => ?_) rfl
      rw [hsame, hsame']
      exact hends e i (.head (.intro reads goesOn separated) he) hi

/-- The first of the entries that differ is another one, wherever it is. -/
theorem Between.first_relocate_ne {i : Nat} (hb : Between r r') (h : r.cursor.Retabs r'.cursor)
    (hrun : (repeatWhile nextHtmlEntry found).run r = (.ok nodes, s)) (hi : EndsValueAt r i)
    (hne : r'.cursor.line[i]? ≠ r.cursor.line[i]?) {nodes' : List Node} {s' : Reading}
    (hrun' : (repeatWhile nextHtmlEntry found).run r' = (.ok nodes', s'))
    (f : Position → Position) : nodes'.map (Node.relocate f) ≠ nodes.map (Node.relocate f) := by
  obtain ⟨-, n, t, reads, others, rfl⟩ := prefix_of_list h.inside hrun
  obtain ⟨-, n', t', reads', others', rfl⟩ := prefix_of_list h.inside' hrun'
  obtain ⟨-, -, k, he, -, hcolumn⟩ := entry_column h.inside reads
  obtain ⟨-, -, k', he', -, -⟩ := entry_column h.inside' reads'
  obtain ⟨m, hm, hcolumnI⟩ := hi
  obtain ⟨j, hj, hget, hget'⟩ := exists_getElem?_rest h m
  obtain rfl : j = i := by omega
  rw [← hget, ← hget'] at hne
  obtain ⟨hspace, htab⟩ := h.rest.getElem?_of_ne hne
  have hdiffers := he.relocate_ne h (hb.take_eq h reads hcolumn) hm (by simp [hspace]) htab he' f
  intro heq
  simp only [List.map_append, List.append_assoc, List.append_cancel_left_eq, List.map_cons,
    List.singleton_append, List.cons.injEq] at heq
  exact hdiffers heq.1

/-- A list on one line is not read alike if a tab stands where the expression of a value stops. -/
theorem Between.list_relocate_ne {i : Nat} {e : Reading} (hb : Between r r')
    (h : r.cursor.Retabs r'.cursor)
    (hrun : (repeatWhile nextHtmlEntry found).run r = (.ok nodes, s))
    (hline : s.cursor.entered = r.cursor.entered)
    (he : ReflTransGen NextEntry r e) (hi : EndsValueAt e i)
    (hne : r'.cursor.line[i]? ≠ r.cursor.line[i]?) {nodes' : List Node} {s' : Reading}
    (hrun' : (repeatWhile nextHtmlEntry found).run r' = (.ok nodes', s'))
    (f : Position → Position) : nodes'.map (Node.relocate f) ≠ nodes.map (Node.relocate f) := by
  induction hn : r.cursor.remaining using Nat.strongRecOn generalizing found r r' with
  | ind k ih =>
    subst hn
    -- the entries before the first one with a tab at the end of its value are read alike
    by_cases hown : ∃ i, EndsValueAt r i ∧ r'.cursor.line[i]? ≠ r.cursor.line[i]?
    · obtain ⟨i, hi, hne⟩ := hown
      exact hb.first_relocate_ne h hrun hi hne hrun' f
    have hends : ∀ i, EndsValueAt r i → r'.cursor.line[i]? = r.cursor.line[i]? := by
      simpa using hown
    rcases he.cases_head with rfl | ⟨next, ⟨reads, goesOn, separated⟩, hlater⟩
    · exact absurd (hends i hi) hne
    obtain ⟨n, t, reads', ⟨m, closed, -, -⟩ | ⟨m, -, separated', stays, hlt, hrest, hstay⟩⟩ :=
      turns_on_line h.inside hrun hline
    · obtain ⟨-, rfl⟩ := Prod.mk.inj (reads.symm.trans reads')
      cases goesOn.symm.trans closed
    · obtain ⟨hn, rfl⟩ := Prod.mk.inj (reads.symm.trans reads')
      obtain rfl := Except.ok.inj hn
      obtain rfl := Option.some.inj (separated.symm.trans separated')
      obtain ⟨u', hstep, hu, hnext, hsame, hsame'⟩ :=
        hb.turn_retabs found h reads goesOn separated stays hends
      rw [hstep] at hrun'
      rw [← hsame, ← hsame'] at hne
      exact ih _ hlt hnext hu hrest hstay hlater hne hrun' rfl

theorem run_htmlAttributes (h : r.cursor.Inside) : htmlAttributes.run r =
    match htmlOpen r.cursor.rest with
    | none => (.ok [], r)
    | some m => (repeatWhile nextHtmlEntry []).run (r.skip m.length) := by
  unfold htmlAttributes
  rw [run_bind, run_eat h]
  cases htmlOpen r.cursor.rest <;> rfl

/-- The second reading stands before an entry of the list that the first one stands before. -/
def StartsEntry (r e : Reading) : Prop :=
  ∃ m, htmlOpen r.cursor.rest = some m ∧ ReflTransGen NextEntry (r.skip m.length) e

/-- A list on one line, and the same line with tabs in place of some of the spaces between two
entries: the list has the same attributes there, and at the same places, if and only if no tab
stands where the expression of a value stops. -/
theorem htmlAttributes_retabs (h : r.cursor.Retabs r'.cursor)
    (hrun : htmlAttributes.run r = (.ok nodes, s)) (hline : s.cursor.entered = r.cursor.entered)
    (hbetween : ∀ i : Nat, r'.cursor.line[i]? ≠ r.cursor.line[i]? →
      ∃ e, StartsEntry r e ∧ SeparatesAt e i) :
    ((∃ nodes' s' f, htmlAttributes.run r' = (.ok nodes', s') ∧
        nodes'.map (Node.relocate f) = nodes.map (Node.relocate f)) ↔
      ∀ e i, StartsEntry r e → EndsValueAt e i → r'.cursor.line[i]? = r.cursor.line[i]?) ∧
    ((∀ e i, StartsEntry r e → EndsValueAt e i → r'.cursor.line[i]? = r.cursor.line[i]?) →
      ∃ s', htmlAttributes.run r' = (.ok nodes, s') ∧ s.cursor.Retabs s'.cursor) := by
  rw [run_htmlAttributes h.inside']
  rw [run_htmlAttributes h.inside] at hrun
  cases hopen : htmlOpen r.cursor.rest with
  | none =>
    rw [hopen] at hrun
    obtain ⟨hnodes, rfl⟩ := Prod.mk.inj hrun
    obtain rfl := Except.ok.inj hnodes
    rw [blind_htmlOpen.eq_none h.rest hopen]
    have hnone : ∀ e, ¬ StartsEntry r e := fun e ⟨m, hm, _⟩ => by cases hopen.symm.trans hm
    exact ⟨⟨fun _ e i he => absurd he (hnone e), fun _ => ⟨[], r', id, rfl, rfl⟩⟩,
      fun _ => ⟨r', rfl, h⟩⟩
  | some m =>
    obtain ⟨m', hopen', hlength⟩ := blind_htmlOpen.exists_eq_some h.rest hopen
    rw [hopen] at hrun
    rw [hopen']
    dsimp only at hrun ⊢
    rw [hlength]
    have hb : Between (r.skip m.length) (r'.skip m.length) := by
      intro i _ hne
      obtain ⟨e, ⟨m', hm', he⟩, hseparates⟩ := hbetween i hne
      obtain rfl := Option.some.inj (hopen.symm.trans hm')
      exact ⟨e, he, hseparates⟩
    have hsame (hends : ∀ e i, StartsEntry r e → EndsValueAt e i →
        r'.cursor.line[i]? = r.cursor.line[i]?) :=
      hb.list_retabs (h.skip _) hrun hline fun e i he hi => hends e i ⟨m, hopen, he⟩ hi
    refine ⟨⟨?_, ?_⟩, hsame⟩
    · rintro ⟨nodes', s', f, hrun', heq⟩ e i ⟨m', hm', he⟩ hi
      obtain rfl := Option.some.inj (hopen.symm.trans hm')
      by_contra hne
      exact hb.list_relocate_ne (h.skip _) hrun hline he hi hne hrun' f heq
    · intro hends
      obtain ⟨s', hrun', -⟩ := hsame hends
      exact ⟨nodes, s', id, hrun', rfl⟩

/-- A tab behind an attribute without a value. -/
theorem htmlAttributes_retabs_flag : ∃ nodes s s',
    (Reading.onFirstLine "(a b=c)").cursor.Retabs (Reading.onFirstLine "(a\tb=c)").cursor ∧
    htmlAttributes.run (.onFirstLine "(a b=c)") = (.ok nodes, s) ∧
    htmlAttributes.run (.onFirstLine "(a\tb=c)") = (.ok nodes, s') ∧
    s.cursor.Retabs s'.cursor := by
  have hinside : (Reading.onFirstLine "(a b=c)").cursor.Inside :=
    (Reading.standsBefore_onFirstLine (by decide)).inside
  have hspace : (Reading.onFirstLine "(a b=c)").cursor.line =
    "(a".toList ++ ' ' :: "b=c)".toList := by decide +kernel
  have htab : (Reading.onFirstLine "(a\tb=c)").cursor.line =
    "(a".toList ++ '\t' :: "b=c)".toList := by decide +kernel
  have h := Cursor.Retabs.of_tab hinside (Reading.standsBefore_onFirstLine (by decide)).inside
    hspace htab (by decide +kernel)
  have heval : ((htmlAttributes.run (.onFirstLine "(a b=c)")).1.toOption.isSome,
      (htmlAttributes.run (.onFirstLine "(a b=c)")).2.cursor.entered) = (true, 1) := by
    decide +kernel
  have hfirst := Reading.inside_skip hinside 1
  have hrest : ((Reading.onFirstLine "(a b=c)").skip 1).cursor.rest = "a b=c)".toList := by
    decide +kernel
  have he : EntryAt ((Reading.onFirstLine "(a b=c)").skip 1) _ 1 :=
    .flag (by rw [hrest]; rfl) (by rw [hrest]; rfl) (by rw [hrest]; rfl)
  obtain ⟨t, reads, hcursor⟩ := he.run hfirst
  have hplace {i : Nat} (hne : (Reading.onFirstLine "(a\tb=c)").cursor.line[i]? ≠
      (Reading.onFirstLine "(a b=c)").cursor.line[i]?) : i = 2 := by
    rw [hspace, htab] at hne
    exact eq_length_of_getElem?_tab _ hne
  rcases hrun : htmlAttributes.run (.onFirstLine "(a b=c)") with ⟨_ | nodes, s⟩
  · rw [hrun] at heval
    cases heval
  rw [hrun] at heval
  obtain ⟨-, hsame⟩ := htmlAttributes_retabs h hrun (Prod.mk.inj heval).2 fun i hne => by
    obtain rfl := hplace hne
    refine ⟨_, ⟨.plain 1, by decide +kernel, .refl⟩, .intro (m := .plain 1) reads ?_ ?_ ?_ ?_⟩ <;>
      rw [hcursor] <;> decide +kernel
  obtain ⟨s', hrun', hs⟩ := hsame fun e i ⟨m, hopen, he⟩ hi => by
    by_contra hne
    obtain rfl := hplace hne
    obtain rfl : Match.plain 1 = m := by
      refine Option.some.inj (Eq.trans ?_ hopen)
      decide +kernel
    obtain ⟨k, hk, hcolumn⟩ := hi
    rcases he.cases_head with rfl | ⟨_, @⟨u, _, m, reads', -, separated⟩, hlater⟩
    · change valueStop? ((Reading.onFirstLine "(a b=c)").skip 1).cursor.rest = _ at hk
      rw [hrest] at hk
      cases hk
    · obtain ⟨-, rfl⟩ := Prod.mk.inj (reads.symm.trans reads')
      obtain ⟨hinside', -⟩ := entry_column hfirst reads
      have hstart : t.cursor.column = 2 := by
        rw [hcursor]
        decide +kernel
      have hskip : (t.skip m.length).cursor.column = t.cursor.column + m.length :=
        Cursor.column_skip hinside' (within_htmlSeparator separated)
      have hle := (onward_of_reflTransGen (Reading.inside_skip hinside' _) hlater).2.2
      have hpos := (consumes_some1 _ _ _ separated).1
      omega
  exact ⟨nodes, s, s', h, rfl, hrun', hs⟩

/-- A tab directly behind a value is read as part of it, and so is what follows. -/
theorem htmlAttributes_tab_in_value : ∃ nodes s nodes' s',
    (Reading.onFirstLine "(a=b c=d)").cursor.Retabs (Reading.onFirstLine "(a=b\tc=d)").cursor ∧
    htmlAttributes.run (.onFirstLine "(a=b c=d)") = (.ok nodes, s) ∧
    s.cursor.entered = (Reading.onFirstLine "(a=b c=d)").cursor.entered ∧
    (∀ i : Nat, (Reading.onFirstLine "(a=b\tc=d)").cursor.line[i]? ≠
        (Reading.onFirstLine "(a=b c=d)").cursor.line[i]? →
      ∃ e, StartsEntry (.onFirstLine "(a=b c=d)") e ∧ SeparatesAt e i) ∧
    nodes.length = 2 ∧
    htmlAttributes.run (.onFirstLine "(a=b\tc=d)") = (.ok nodes', s') ∧ nodes'.length = 1 := by
  have hinside : (Reading.onFirstLine "(a=b c=d)").cursor.Inside :=
    (Reading.standsBefore_onFirstLine (by decide)).inside
  have hspace : (Reading.onFirstLine "(a=b c=d)").cursor.line =
    "(a=b".toList ++ ' ' :: "c=d)".toList := by decide +kernel
  have htab : (Reading.onFirstLine "(a=b\tc=d)").cursor.line =
    "(a=b".toList ++ '\t' :: "c=d)".toList := by decide +kernel
  have h := Cursor.Retabs.of_tab hinside (Reading.standsBefore_onFirstLine (by decide)).inside
    hspace htab (by decide +kernel)
  have hcount : ((htmlAttributes.run (.onFirstLine "(a=b c=d)")).1.toOption.map List.length,
      (htmlAttributes.run (.onFirstLine "(a=b c=d)")).2.cursor.entered) = (some 2, 1) := by
    decide +kernel
  have hcount' : (htmlAttributes.run (.onFirstLine "(a=b\tc=d)")).1.toOption.map List.length =
    some 1 := by decide +kernel
  have hrest : ((Reading.onFirstLine "(a=b c=d)").skip 1).cursor.rest = "a=b c=d)".toList := by
    decide +kernel
  have hvalue : (((Reading.onFirstLine "(a=b c=d)").skip 1).skip 2).cursor.rest =
      "b c=d)".toList := by decide +kernel
  have he : EntryAt ((Reading.onFirstLine "(a=b c=d)").skip 1) _ (2 + 1) :=
    @EntryAt.value _ 1 1 1 none (by rw [hrest]; rfl) (by rw [hrest]; rfl) (by rw [hrest]; rfl)
      (.absent (by rw [hvalue]; rfl)) (by rw [hvalue]; decide +kernel)
  obtain ⟨t, reads, hcursor⟩ := he.run (Reading.inside_skip hinside 1)
  rcases hrun : htmlAttributes.run (.onFirstLine "(a=b c=d)") with ⟨_ | nodes, s⟩
  · rw [hrun] at hcount
    cases hcount
  rcases hrun' : htmlAttributes.run (.onFirstLine "(a=b\tc=d)") with ⟨_ | nodes', s'⟩
  · rw [hrun'] at hcount'
    cases hcount'
  rw [hrun] at hcount
  rw [hrun'] at hcount'
  obtain ⟨hlength, hentered⟩ := Prod.mk.inj hcount
  refine ⟨nodes, s, nodes', s', h, rfl, hentered, fun i hne => ?_, Option.some.inj hlength, rfl,
    Option.some.inj hcount'⟩
  rw [hspace, htab] at hne
  obtain rfl := eq_length_of_getElem?_tab _ hne
  refine ⟨_, ⟨.plain 1, by decide +kernel, .refl⟩, .intro (m := .plain 1) reads ?_ ?_ ?_ ?_⟩ <;>
    rw [hcursor] <;> decide +kernel

end Lists

end Production

end TemplateTree
