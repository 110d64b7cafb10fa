import TemplateTree.Proofs.Gaps.Statements
import TemplateTree.Proofs.Parallel

/-!
# Lines before a gap of blank lines

One step of reading a template that does not pass the gap. A joined line that goes on up to the gap
goes on over the blank lines of the second source too.
-/

set_option autoImplicit false

namespace TemplateTree

open Node Production Comparison Correspondence

/-- An entry does not pass the gap, and the block of a filter does not reach it. -/
def Entry.Fits (tail : List (List Char)) (e : Entry) (s : Reading) : Prop :=
  s.Before tail ∧ ∀ said ∈ e.statement?, said.1.kind = .filter →
    tail.length < s.cursor.upcoming.length

/-- Both readings find the same entry. -/
def EntersSame (tail : List (List Char)) (e e' : Entry) (s s' : Reading) : Prop :=
  e.relocate Position.columnOnly = e'.relocate Position.columnOnly ∧ Lags tail s s'

variable {tail tail' blanks : List (List Char)} {c : Cursor} {r r' : Reading}

theorem Production.exists_run_expected {α : Type} (what : Expected) (r : Reading) :
    ∃ e, (expected what : Production α).run r = (.error e, r) := by
  unfold expected
  rw [run_cursor_bind, Cursor.unexpected]
  cases r.cursor.peekChar with
  | error => exact ⟨_, rfl⟩
  | ok => exact ⟨_, rfl⟩

namespace Split

theorem carries_stating (h : Split tail (blanks ++ tail) c r r')
    (hblanks : ∀ line ∈ blanks, Text.isBlankLine line) (g : Grammar) (level : Nat) :
    Carries (Entry.Fits tail) (stating g level) (stating g level) r r' (EntersSame tail) := by
  refine Carries.bind (h.carries_statement? hblanks g) ?_ ?_
  · intro n s e u _ hrun he node hn
    obtain rfl : n = some node := hn
    obtain ⟨rfl, rfl⟩ := of_run_pure hrun
    exact ⟨he.1, he.2 _ rfl⟩
  · rintro n n' s s' ⟨hn, hs⟩
    cases n with
    | none =>
      obtain ⟨e, herror⟩ : ∃ e, (expected .statement : Production Entry).run s = (.error e, s) :=
        exists_run_expected .statement s
      exact Carries.of_error herror
    | some node =>
      obtain ⟨node', rfl, hnode⟩ := Option.map_eq_some_iff.mp hn.symm
      dsimp only
      rw [carries_get_bind, hs.indent]
      refine Carries.pure fun _ => ⟨?_, hs⟩
      exact congrArg (fun m => Entry.statement m level _) hnode.symm

theorem carries_checkIndent (h : Split tail tail' c r r') (indent : List Char) (atStart : Bool) :
    Carries (fun _ _ => True) (checkIndent indent atStart) (checkIndent indent atStart) r r'
      fun level level' s s' => level = level' ∧ Split tail tail' c s s' := by
  intro level s hrun _
  have hens := ensures_taken (r := r) indent atStart
  have hens' := ensures_taken (r := r') indent atStart
  unfold Ensures at hens hens'
  rw [hrun] at hens
  obtain ⟨hcheck, hcursor, -⟩ := hens
  rw [h.indent, hcheck] at hens'
  rcases hrun' : (checkIndent indent atStart).run r' with ⟨e | level', s'⟩ <;> rw [hrun'] at hens'
  · obtain ⟨cause, hcause, -⟩ := hens'
    cases hcause
  · obtain ⟨hcheck', hcursor', -⟩ := hens'
    obtain ⟨hlevel, hindent⟩ := Prod.mk.inj hcheck'
    refine ⟨level', s', rfl, Except.ok.inj hlevel, ?_, ?_, hindent.symm⟩
    · rw [hcursor]
      exact h.first
    · rw [hcursor']
      exact h.second

theorem carries_entry (h : Split tail (blanks ++ tail) c r r')
    (hblanks : ∀ line ∈ blanks, Text.isBlankLine line)
    (hlast : r'.outline.last = r.outline.last) (g : Grammar) :
    Carries (Entry.Fits tail) (entry g) (entry g) r r' (EntersSame tail) := by
  unfold entry
  rw [carries_cursor_bind, h.line]
  split
  · exact Carries.pure fun _ => ⟨rfl, Apart.lags ⟨c, h⟩ hblanks⟩
  dsimp only
  rw [h.rest]
  unfold skipIndent
  rw [carries_modifyCursor_bind, carries_get_bind]
  dsimp only
  rw [hlast]
  have hskip := h.move h.first.skipIndent h.second.skipIndent
  refine Carries.bind (hskip.carries_checkIndent _ _) (fun _ _ _ _ _ _ _ => trivial) ?_
  rintro level _ s s' ⟨rfl, hs⟩
  exact hs.carries_stating hblanks g level

end Split

namespace Cursor

theorem onward_joined_nextLine {line : List Char} (hp : c.peekLine = some line) :
    c.nextLine.2.Onward c.nextLine.2.joined ∧ c.nextLine.2.joined.column = 0 := by
  have hinside := (onward_nextLine hp).1.inside
  let q : Reading := ⟨c.nextLine.2, .start, .start (.root [] none) .null, []⟩
  have hq : q.cursor.Inside := hinside
  have hjoin := (reads_joinMultiline hq (by simp [q, nextLine_eq hp])
    (by simp [q, nextLine_eq hp, lineIndex])).of_run (run_joinMultiline q)
  exact ⟨hjoin.1.cursor, hjoin.2.1⟩

end Cursor

namespace Production
variable {g : Grammar} {line : List Char} {e : Entry} {s : Reading}

theorem run_entry_of_nextEntry (hp : r.cursor.peekLine = some line)
    (h : (nextEntry g).run r = (.ok (some e), s)) :
    (entry g).run { r with cursor := r.cursor.nextLine.2.joined } = (.ok e, s) := by
  rw [run_nextEntry hp, run_bind] at h
  rcases hq : (entry g).run { r with cursor := r.cursor.nextLine.2.joined } with ⟨_ | said, t⟩ <;>
    rw [hq] at h
  · cases h
  · obtain ⟨hsaid, rfl⟩ := Prod.mk.inj h
    obtain rfl := Option.some.inj (Except.ok.inj hsaid)
    rfl

theorem onward_of_nextEntry (hp : r.cursor.peekLine = some line)
    (h : (nextEntry g).run r = (.ok (some e), s)) :
    r.cursor.nextLine.2.joined.Onward s.cursor := by
  obtain ⟨hon, hcolumn⟩ := Cursor.onward_joined_nextLine hp
  let q : Reading := { r with cursor := r.cursor.nextLine.2.joined }
  have hens := ensures_entry (g := g) (r := q) hon.inside hcolumn ⟨Or.inl, fun _ => rfl⟩
  unfold Ensures at hens
  rw [run_entry_of_nextEntry hp h] at hens
  exact hens.1

/-- A line that was entered is not ahead any more. -/
theorem upcoming_lt_of_nextEntry (h : (nextEntry g).run r = (.ok (some e), s)) :
    s.cursor.upcoming.length < r.cursor.upcoming.length := by
  obtain ⟨line, hp⟩ := exists_peekLine h
  have hline := Cursor.upcoming_of_peekLine hp
  have hjoined := (Cursor.onward_joined_nextLine hp).1.upcoming_le
  have hrest := (onward_of_nextEntry hp h).upcoming_le
  have hlength := congrArg List.length hline
  rw [Cursor.upcoming_nextLine hline] at hjoined
  rw [List.length_cons] at hlength
  omega

end Production

/-- Blank lines add nothing to the text of a joined line. -/
theorem Text.joinedText_append_blanks (first : List Char) (others : List (List Char))
    (hblanks : ∀ line ∈ blanks, isBlankLine line) :
    joinedText first (others ++ blanks) = joinedText first others := by
  have hnone : (blanks.filter fun line => !isBlankLine line) = [] :=
    List.filter_eq_nil_iff.mpr fun line hline => by simp [hblanks line hline]
  rw [joinedText, List.filter_append, hnone, List.append_nil, joinedText]

namespace Lags

/-- Readings that start the same line, with the same lines ahead up to a gap. -/
theorem split_of_starts (h : Lags tail r r') {c c' : Cursor} {text : List Char}
    {shared : List (List Char)} (hc : c.Starts r.cursor.filename text (shared ++ tail))
    (hc' : c'.Starts r'.cursor.filename text (shared ++ tail')) :
    ∃ d, Split tail tail' d { r with cursor := c } { r' with cursor := c' } := by
  rw [h.filename] at hc'
  have hd := Cursor.starts_standIn r.cursor.filename text shared
  exact ⟨_, together_reaching hd hc, together_reaching hd hc', h.indent⟩

/-- A joined line that goes on up to the lines `tail` and not past all of them ends there. -/
theorem group_of_upcoming {line : List Char} {shared : List (List Char)}
    (hm : Text.isMultiline line) (hahead : r.cursor.upcoming = line :: (shared ++ tail))
    (hall : ∀ l ∈ shared, Text.goesOn l)
    (hleft : tail.length ≤ r.cursor.nextLine.2.joined.upcoming.length) :
    Text.Group line shared tail := by
  have hstops := List.head?_dropWhile_not Text.goesOn tail
  have hgroup : Text.Group line (shared ++ tail.takeWhile Text.goesOn)
      (tail.dropWhile Text.goesOn) := by
    refine ⟨hm, fun l hl => ?_, fun l hl => ?_⟩
    · rcases List.mem_append.mp hl with hl | hl
      · exact hall l hl
      · exact List.mem_takeWhile_imp hl
    · rw [Option.mem_def.mp hl] at hstops
      simpa using hstops
  have hsplit : tail.takeWhile Text.goesOn ++ tail.dropWhile Text.goesOn = tail :=
    List.takeWhile_append_dropWhile
  have hupcoming := (Cursor.starts_joined hgroup (c := r.cursor)
    (by rw [hahead, List.append_assoc, hsplit])).upcoming
  have hlength := congrArg List.length hsplit
  rw [hupcoming] at hleft
  rw [List.length_append] at hlength
  have hnone : tail.takeWhile Text.goesOn = [] :=
    List.eq_nil_of_length_eq_zero (by omega)
  rw [hnone, List.nil_append] at hsplit
  rw [hnone, List.append_nil, hsplit] at hgroup
  exact hgroup

/-- Both readings enter the same line, when the first one does not pass the gap. -/
theorem enter (h : Lags tail r r') {line : List Char} (hp : r.cursor.peekLine = some line)
    (hleft : tail.length ≤ r.cursor.nextLine.2.joined.upcoming.length) :
    r'.cursor.peekLine = some line ∧ ∃ blanks c, (∀ l ∈ blanks, Text.isBlankLine l) ∧
      Split tail (blanks ++ tail) c { r with cursor := r.cursor.nextLine.2.joined }
        { r' with cursor := r'.cursor.nextLine.2.joined } := by
  obtain ⟨shared, blanks, hblanks, hahead, hahead'⟩ := h.ahead
  have hfewer := (Cursor.onward_joined_nextLine hp).1.upcoming_le
  cases shared with
  | nil =>
    have hline := Cursor.upcoming_of_peekLine hp
    have hlength := congrArg List.length hline
    rw [Cursor.upcoming_nextLine hline] at hfewer
    rw [List.length_cons, hahead, List.nil_append] at hlength
    rw [hahead, List.nil_append] at hfewer
    omega
  | cons line' shared =>
    have hp' := Cursor.peekLine_of_upcoming hahead'
    obtain rfl : line' = line :=
      Option.some.inj ((Cursor.peekLine_of_upcoming hahead).symm.trans hp)
    refine ⟨hp', ?_⟩
    by_cases hm : Text.isMultiline line'
    · rcases Text.exists_first Text.goesOn shared with
        ⟨taken, line, rest, rfl, htaken, hline⟩ | hall
      · -- the joined line ends before the gap
        have hstops : ∀ lines, ∀ l ∈ (line :: rest ++ lines).head?, Text.goesOn l = false := by
          intro lines l hl
          obtain rfl := Option.some.inj hl
          exact hline
        rw [List.cons_append, List.append_assoc] at hahead hahead'
        have hstarts := Cursor.starts_joined ⟨hm, htaken, hstops _⟩ hahead
        have hstarts' := Cursor.starts_joined ⟨hm, htaken, hstops _⟩ hahead'
        obtain ⟨d, hd⟩ := h.split_of_starts hstarts hstarts'
        exact ⟨blanks, d, hblanks, hd⟩
      · -- the joined line goes on up to the gap, and over it
        have hgroup := group_of_upcoming hm hahead hall hleft
        have hstarts := Cursor.starts_joined hgroup hahead
        have hgroup' : Text.Group line' (shared ++ blanks) tail := by
          refine ⟨hm, fun l hl => ?_, hgroup.following⟩
          rcases List.mem_append.mp hl with hl | hl
          · exact hall l hl
          · simp [Text.goesOn, hblanks l hl]
        rw [List.cons_append, ← List.append_assoc] at hahead'
        have hstarts' := Cursor.starts_joined hgroup' hahead'
        rw [Text.joinedText_append_blanks _ _ hblanks] at hstarts'
        rw [← List.nil_append tail] at hstarts hstarts'
        obtain ⟨d, hd⟩ := h.split_of_starts hstarts hstarts'
        exact ⟨[], d, by simp, hd⟩
    · have hstarts := Cursor.starts_of_plain hahead (by simpa using hm)
      have hstarts' := Cursor.starts_of_plain hahead' (by simpa using hm)
      obtain ⟨d, hd⟩ := h.split_of_starts hstarts hstarts'
      exact ⟨blanks, d, hblanks, hd⟩

theorem nextEntry (h : Lags tail r r') (hlast : r'.outline.last = r.outline.last) {g : Grammar}
    {e : Entry} {s : Reading} (hreads : (nextEntry g).run r = (.ok (some e), s))
    (hfits : e.Fits tail s) :
    ∃ e' s', (nextEntry g).run r' = (.ok (some e'), s') ∧ EntersSame tail e e' s s' := by
  obtain ⟨line, hp⟩ := exists_peekLine hreads
  have hleft := Nat.le_trans hfits.1 (onward_of_nextEntry hp hreads).upcoming_le
  obtain ⟨hp', blanks, d, hblanks, hd⟩ := h.enter hp hleft
  obtain ⟨e', s', hrun', hsame⟩ :=
    hd.carries_entry hblanks hlast g e s (run_entry_of_nextEntry hp hreads) hfits
  refine ⟨e', s', ?_, hsame⟩
  rw [run_nextEntry hp', run_bind, hrun']
  rfl

end Lags

end TemplateTree
