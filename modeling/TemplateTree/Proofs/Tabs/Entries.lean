import TemplateTree.Proofs.Tabs.Values

/-!
# Entries on lines with tabs

An entry of a list in round brackets is an interpolation, a name, or a name with a value. On a line
with tabs in place of spaces it is read as it was if its characters and the one that the expression
of its value stops at are the same. It is another one if a tab stands there. A list is read in
turns, each of which reads an entry and what separates it from the next one.
-/

set_option autoImplicit false

namespace TemplateTree

open Text

namespace Production

open Pattern

variable {r r' s : Reading} {n : Node}

/-- The place where the expression of a value stops, in an entry that has a value. -/
def valueStop? (cs : List Char) : Option Nat := do
  let name ← htmlName cs
  let equals ← htmlEquals (cs.drop name.length)
  let stop ← Scan.expression [' '] (cs.drop (name.length + equals.length))
  return name.length + equals.length + stop

/-- An entry at the start of what is left of a line, and how far it goes. -/
inductive EntryAt (r : Reading) : Node → Nat → Prop where
  | interpolation {k : Nat} (scan : Scan.interpolation r.cursor.rest = some k) :
      EntryAt r
        (.tagAttributeInterpolation
          (.ofExpression ((r.cursor.rest.take k).drop 2)
            (r.cursor.positionAt (r.cursor.column + 2)))
          (r.cursor.positionAt (r.cursor.column + 2)))
        (k + 1)
  | flag {a : Nat} (noInsert : Scan.interpolation r.cursor.rest = none)
      (names : (htmlName r.cursor.rest).map Match.length = some a)
      (alone : htmlEquals (r.cursor.rest.drop a) = none) :
      EntryAt r
        (.tagAttribute (.ofText (r.cursor.rest.take a) r.cursor.position) none r.cursor.position) a
  | value {a b stop : Nat} {found : Option (Node × Nat)}
      (noInsert : Scan.interpolation r.cursor.rest = none)
      (names : (htmlName r.cursor.rest).map Match.length = some a)
      (sets : (htmlEquals (r.cursor.rest.drop a)).map Match.length = some b)
      (might : LiteralAt (r.skip (a + b)) found)
      (stops : Scan.expression [' '] (r.skip (a + b)).cursor.rest = some stop) :
      EntryAt r
        (.tagAttribute (.ofText (r.cursor.rest.take a) r.cursor.position)
          (some (valueOf (r.skip (a + b)) stop found).1) r.cursor.position)
        (a + b + (valueOf (r.skip (a + b)) stop found).2)

section Runs
variable (h : r.cursor.Inside)
include h

theorem run_interpolation? : interpolation?.run r =
    match Scan.interpolation r.cursor.rest with
    | none => (.ok none, r)
    | some k => (.ok (some (.ofExpression ((r.cursor.rest.take k).drop 2)
        (r.cursor.positionAt (r.cursor.column + 2)))), r.skip (k + 1)) := by
  unfold interpolation?
  rw [run_cursor_bind, Cursor.interpolationAt_eq h]
  cases Scan.interpolation r.cursor.rest with
  | none => rfl
  | some k =>
    have hcode : Text.slice r.cursor.line (r.cursor.column + 2) (r.cursor.column + k) =
        (r.cursor.rest.take k).drop 2 := by
      obtain ⟨c, hc, -, hrest⟩ := Cursor.exists_rest h
      have hslice := Text.slice_natCast r.cursor.line (c + 2) (c + k)
      rw [hrest, hc, List.drop_take, List.drop_drop, show k - 2 = c + k - (c + 2) by omega]
      exact_mod_cast hslice
    have hadvance := run_advanceTo (r := r) (k + 1)
    rw [show r.cursor.column + ((k + 1 : Nat) : Int) = r.cursor.column + k + 1 by omega] at hadvance
    change (advanceTo (r.cursor.column + k + 1) >>= fun _ => _).run r = _
    rw [run_bind, hadvance]
    dsimp only
    rw [hcode]
    rfl

theorem run_htmlEntry_name {name : Match} (noInsert : Scan.interpolation r.cursor.rest = none)
    (names : htmlName r.cursor.rest = some name) : htmlEntry.run r =
    match htmlEquals (r.cursor.rest.drop name.length) with
    | none => (.ok (.tagAttribute (.ofText (r.cursor.rest.take name.length) r.cursor.position) none
        r.cursor.position), r.skip name.length)
    | some equals => (do
        return .tagAttribute (.ofText (r.cursor.rest.take name.length) r.cursor.position)
          (some (← attributeExpression [' '])) r.cursor.position : Production Node).run
            (r.skip (name.length + equals.length)) := by
  have hinside := Reading.inside_skip h name.length
  unfold htmlEntry
  rw [run_bind, run_interpolation? h, noInsert]
  dsimp only
  rw [run_cursor_bind, Cursor.inLine_eq h, run_bind, run_eat? h, names]
  dsimp only
  rw [run_bind, run_eat hinside, Reading.rest_skip h]
  cases htmlEquals (r.cursor.rest.drop name.length) with
  | none => rfl
  | some equals =>
    dsimp only
    rw [Reading.skip_skip]
    rfl

end Runs

theorem EntryAt.run {k : Nat} (h : r.cursor.Inside) (he : EntryAt r n k) :
    ∃ s, htmlEntry.run r = (.ok n, s) ∧ s.cursor = (r.skip k).cursor := by
  cases he with
  | interpolation scan =>
    refine ⟨_, ?_, rfl⟩
    unfold htmlEntry
    rw [run_bind, run_interpolation? h, scan]
    rfl
  | flag noInsert names alone =>
    obtain ⟨name, hname, rfl⟩ := Option.map_eq_some_iff.mp names
    refine ⟨_, ?_, rfl⟩
    rw [run_htmlEntry_name h noInsert hname, alone]
  | value noInsert names sets might stops =>
    obtain ⟨name, hname, rfl⟩ := Option.map_eq_some_iff.mp names
    obtain ⟨equals, hequals, rfl⟩ := Option.map_eq_some_iff.mp sets
    obtain ⟨s, hrun, hcursor⟩ := run_attributeExpression (Reading.inside_skip h _) might stops
    refine ⟨s, ?_, ?_⟩
    · rw [run_htmlEntry_name h noInsert hname, hequals]
      dsimp only
      rw [run_bind, hrun]
      rfl
    · rw [hcursor, Reading.skip_skip]

/-- What is read as an entry is one of the three kinds. -/
theorem exists_entryAt (h : r.cursor.Inside) (hrun : htmlEntry.run r = (.ok n, s)) :
    ∃ k, EntryAt r n k ∧ s.cursor = (r.skip k).cursor := by
  have found {m : Node} {k : Nat} (he : EntryAt r m k) :
      ∃ k, EntryAt r n k ∧ s.cursor = (r.skip k).cursor := by
    obtain ⟨t, hown, hcursor⟩ := he.run h
    obtain ⟨hn, rfl⟩ := Prod.mk.inj (hown.symm.trans hrun)
    obtain rfl := Except.ok.inj hn
    exact ⟨k, he, hcursor⟩
  cases hscan : Scan.interpolation r.cursor.rest with
  | some k => exact found (.interpolation hscan)
  | none =>
    cases hname : htmlName r.cursor.rest with
    | none =>
      unfold htmlEntry at hrun
      rw [run_bind, run_interpolation? h, hscan] at hrun
      dsimp only at hrun
      rw [run_cursor_bind, Cursor.inLine_eq h, run_bind, run_eat? h, hname] at hrun
      dsimp only at hrun
      rw [run_expected h] at hrun
      cases hrun
    | some name =>
      have hlength : (htmlName r.cursor.rest).map Match.length = some name.length := by
        rw [hname]
        rfl
      cases hequals : htmlEquals (r.cursor.rest.drop name.length) with
      | none => exact found (.flag hscan hlength hequals)
      | some equals =>
        have hinside := Reading.inside_skip h (name.length + equals.length)
        cases hstop : Scan.expression [' '] (r.skip (name.length + equals.length)).cursor.rest with
        | none =>
          obtain ⟨e, he⟩ := run_attributeExpression_none hinside hstop
          rw [run_htmlEntry_name h hscan hname, hequals] at hrun
          dsimp only at hrun
          rw [run_bind, he] at hrun
          cases hrun
        | some stop =>
          obtain ⟨might, -, hmight, -⟩ := exists_literalAt (.refl hinside) rfl
          exact found (.value hscan hlength (by rw [hequals]; rfl) hmight hstop)

theorem EntryAt.le_length {k : Nat} (h : r.cursor.Inside) (he : EntryAt r n k) :
    k ≤ r.cursor.rest.length := by
  cases he with
  | interpolation scan => exact Scan.interpolation_lt scan
  | flag noInsert names alone =>
    obtain ⟨name, hname, rfl⟩ := Option.map_eq_some_iff.mp names
    exact within_htmlName hname
  | value noInsert names sets might stops =>
    obtain ⟨name, hname, rfl⟩ := Option.map_eq_some_iff.mp names
    obtain ⟨equals, hequals, rfl⟩ := Option.map_eq_some_iff.mp sets
    have hnameLe := within_htmlName hname
    have hequalsLe := within_htmlEquals hequals
    have hvalueLe := valueOf_le might (Scan.le_length_of_expression stops)
    rw [Reading.rest_skip h, List.length_drop] at hvalueLe
    rw [List.length_drop] at hequalsLe
    omega

/-- Where the expression of a value stops. -/
theorem valueStop?_eq_some {cs : List Char} {a b stop : Nat}
    (names : (htmlName cs).map Match.length = some a)
    (sets : (htmlEquals (cs.drop a)).map Match.length = some b)
    (stops : Scan.expression [' '] (cs.drop (a + b)) = some stop) :
    valueStop? cs = some (a + b + stop) := by
  obtain ⟨name, hname, rfl⟩ := Option.map_eq_some_iff.mp names
  obtain ⟨equals, hequals, rfl⟩ := Option.map_eq_some_iff.mp sets
  simp only [valueStop?, hname, hequals, stops, Option.bind_eq_bind, Option.bind_some, pure]

/-- What might be the value of an entry, on both lines. -/
theorem LiteralAt.skip_retabs {a k : Nat} {found : Option (Node × Nat)}
    (h : r.cursor.Retabs r'.cursor) (might : LiteralAt (r.skip a) found) (hpos : 0 < k)
    (htake : (r'.skip a).cursor.rest.take k = (r.skip a).cursor.rest.take k) :
    ∃ found', LiteralAt (r'.skip a) found' ∧ SameLiteral (r.skip a) (r'.skip a) found found' := by
  have hhead : (r'.skip a).cursor.rest.head? = (r.skip a).cursor.rest.head? := by
    have heads := congrArg List.head? htake
    rwa [List.head?_take, List.head?_take, if_neg (by omega), if_neg (by omega)] at heads
  obtain ⟨own, other, hown, hother, hsame⟩ := exists_literalAt (h.skip a) hhead
  obtain rfl := hown.unique (Reading.inside_skip h.inside a) might
  exact ⟨other, hother, hsame⟩

section Entries
variable {k : Nat} (h : r.cursor.Retabs r'.cursor) (he : EntryAt r n k)
  (htake : r'.cursor.rest.take k = r.cursor.rest.take k)
include h he htake

/-- An entry is the same if its characters are, and the one that the expression of its value stops
at. -/
theorem EntryAt.retabs
    (hstop : ∀ m ∈ valueStop? r.cursor.rest, r'.cursor.rest[m]? = r.cursor.rest[m]?) :
    EntryAt r' n k := by
  have hscan := Scan.interpolation_retabbed h.rest
  cases he with
  | @interpolation k scan =>
    have he' := EntryAt.interpolation (hscan.trans scan)
    rw [(take_eq_and_drop (Nat.le_succ k) htake).1, h.column, h.places] at he'
    exact he'
  | @flag k noInsert names alone =>
    have hequals := blind_htmlEquals.eq_none (List.forall₂_drop k h.rest) alone
    have he' := EntryAt.flag (hscan.trans noInsert) ((blind_htmlName h.rest).trans names) hequals
    rwa [htake, h.position] at he'
  | @value a b stop found noInsert names sets might stops =>
    have htext := (take_eq_and_drop (n := a) (by omega) htake).1
    have hvalue := (take_eq_and_drop (Nat.le_add_right (a + b) _) htake).2
    rw [Nat.add_sub_cancel_left, ← Reading.rest_skip h.inside, ← Reading.rest_skip h.inside']
      at hvalue
    have hpos : 0 < (valueOf (r.skip (a + b)) stop found).2 :=
      Nat.lt_of_lt_of_le (Scan.expression_pos stops).1 le_valueOf
    obtain ⟨found', might', hsame⟩ := might.skip_retabs h hpos hvalue
    have hnext : (r'.skip (a + b)).cursor.rest[stop]? = (r.skip (a + b)).cursor.rest[stop]? := by
      rw [Reading.rest_skip h.inside] at stops ⊢
      rw [Reading.rest_skip h.inside', List.getElem?_drop, List.getElem?_drop]
      exact hstop _ (valueStop?_eq_some names sets stops)
    have he' := EntryAt.value (hscan.trans noInsert) ((blind_htmlName h.rest).trans names)
      ((blind_htmlEquals (List.forall₂_drop _ h.rest)).trans sets) might'
      (Scan.expression_retabbed (h.skip _).rest stops hnext)
    rwa [valueOf_retabs (h.skip _) hsame hvalue, htext, h.position] at he'

/-- An entry is another one if a tab stands where the expression of its value stopped. -/
theorem EntryAt.relocate_ne {m k' : Nat} {n' : Node} (hm : valueStop? r.cursor.rest = some m)
    (hspace : r.cursor.rest[m]? ≠ some '\t') (htab : r'.cursor.rest[m]? = some '\t')
    (he' : EntryAt r' n' k') (f : Position → Position) : n'.relocate f ≠ n.relocate f := by
  have hscan := Scan.interpolation_retabbed h.rest
  -- the tab is not among the characters of the entry
  have hbehind : k ≤ m := by
    by_contra hlt
    have hget := congrArg (·[m]?) htake
    rw [List.getElem?_take_of_lt (by omega), List.getElem?_take_of_lt (by omega), htab] at hget
    exact hspace hget.symm
  cases he with
  | interpolation scan =>
    obtain ⟨body, -, hrest, -⟩ := Scan.interpolation_eq_some_iff.mp scan
    rw [hrest] at hm
    cases hm
  | flag noInsert names alone =>
    obtain ⟨name, hname, rfl⟩ := Option.map_eq_some_iff.mp names
    simp [valueStop?, hname, alone] at hm
  | @value a b stop found noInsert names sets might stops =>
    have hstops := stops
    rw [Reading.rest_skip h.inside] at hstops
    obtain rfl := Option.some.inj (hm.symm.trans (valueStop?_eq_some names sets hstops))
    have hstop : (valueOf (r.skip (a + b)) stop found).2 = stop :=
      Nat.le_antisymm (by omega) le_valueOf
    have hvalue := (take_eq_and_drop (Nat.le_add_right (a + b) _) htake).2
    rw [Nat.add_sub_cancel_left, ← Reading.rest_skip h.inside, ← Reading.rest_skip h.inside', hstop]
      at hvalue
    rw [← List.getElem?_drop, ← Reading.rest_skip h.inside'] at htab
    obtain ⟨longer, hlonger, hscan'⟩ := Scan.exists_expression_of_tab stops hvalue htab
    cases he' with
    | interpolation scan => cases (hscan.trans noInsert).symm.trans scan
    | @flag a' noInsert' names' alone =>
      obtain rfl := Option.some.inj (names'.symm.trans ((blind_htmlName h.rest).trans names))
      have hequals := (blind_htmlEquals (List.forall₂_drop _ h.rest)).trans sets
      rw [alone] at hequals
      cases hequals
    | @value a' b' stop' found' noInsert' names' sets' might' stops' =>
      obtain rfl := Option.some.inj (names'.symm.trans ((blind_htmlName h.rest).trans names))
      obtain rfl := Option.some.inj
        (sets'.symm.trans ((blind_htmlEquals (List.forall₂_drop _ h.rest)).trans sets))
      obtain rfl := Option.some.inj (stops'.symm.trans hscan')
      obtain ⟨own, hown, hsame⟩ := might.skip_retabs h (Scan.expression_pos stops).1 hvalue
      obtain rfl := hown.unique (Reading.inside_skip h.inside' _) might'
      have hne := valueOf_ne might hsame (hstop ▸ hlonger) (Scan.le_length_of_expression stops') f
      intro heq
      simp only [Node.relocate, Node.relocateOptional, Node.tagAttribute.injEq, Option.some.injEq]
        at heq
      exact hne heq.2.1

end Entries

section Loop
variable {found nodes : List Node} {x : ForInStep (List Node)}

/-- What one turn of the loop reads: an entry, and then the bracket that closes the list, or blanks
before another entry, or the end of the line. -/
inductive Turns (found : List Node) (r : Reading) : ForInStep (List Node) → Reading → Prop where
  | closes {n : Node} {s : Reading} {m : Match} (reads : htmlEntry.run r = (.ok n, s))
      (closed : htmlClose s.cursor.rest = some m) :
      Turns found r (.done (found ++ [n])) (s.skip m.length)
  | separates {n : Node} {s : Reading} {m : Match} (reads : htmlEntry.run r = (.ok n, s))
      (goesOn : htmlClose s.cursor.rest = none) (separated : htmlSeparator s.cursor.rest = some m)
      (stays : (s.skip m.length).cursor.rest ≠ []) :
      Turns found r (.yield (found ++ [n])) (s.skip m.length)
  | leaves {n : Node} {s u : Reading} (reads : htmlEntry.run r = (.ok n, s)) (onward : s.Onward u)
      (enters : s.cursor.entered < u.cursor.entered) : Turns found r (.yield (found ++ [n])) u

/-- The end of a turn leaves the line if nothing is left of it. -/
theorem stays_or_leaves {β : Type} {b y : β} (h : r.cursor.Inside)
    (hrun : (do
      if (← cursor).isEnd then continueList ')'
      return b : Production β).run r = (.ok y, s)) :
    y = b ∧ (r.cursor.rest ≠ [] ∧ s = r ∨ r.Onward s ∧ r.cursor.entered < s.cursor.entered) := by
  rw [run_cursor_bind] at hrun
  by_cases hend : r.cursor.rest = []
  · rw [if_pos ((Cursor.isEnd_iff h).mpr hend)] at hrun
    cases hp : r.cursor.peekLine with
    | none =>
      unfold continueList at hrun
      rw [run_bind, run_cursor_bind, hp] at hrun
      rw [Option.isNone_none, if_pos rfl, run_expected_bind h] at hrun
      cases hrun
    | some line =>
      rw [run_bind, run_continueList hp] at hrun
      obtain ⟨hy, rfl⟩ := Prod.mk.inj hrun
      have hon := ((reads_continueList h ')').of_run (run_continueList hp ')')).1
      refine ⟨(Except.ok.inj hy).symm, Or.inr ⟨hon, ?_⟩⟩
      rw [Cursor.nextLine_eq hp]
      exact Nat.lt_succ_self _
  · rw [if_neg (mt (Cursor.isEnd_iff h).mp hend)] at hrun
    obtain ⟨hy, rfl⟩ := Prod.mk.inj hrun
    exact ⟨(Except.ok.inj hy).symm, Or.inl ⟨hend, rfl⟩⟩

theorem turns_of_run (h : r.cursor.Inside) (hrun : (nextHtmlEntry found).run r = (.ok x, s)) :
    Turns found r x s := by
  unfold nextHtmlEntry at hrun
  rw [run_bind] at hrun
  rcases hentry : htmlEntry.run r with ⟨e | n, t⟩
  · rw [hentry] at hrun
    cases hrun
  rw [hentry] at hrun
  dsimp only at hrun
  have hinside : t.cursor.Inside := ((reads_htmlEntry (i := true) h).of_run hentry).1.inside
  rw [run_bind, run_eat hinside] at hrun
  cases hclose : htmlClose t.cursor.rest with
  | some m =>
    rw [hclose] at hrun
    obtain ⟨hx, rfl⟩ := Prod.mk.inj hrun
    rw [← Except.ok.inj hx]
    exact .closes hentry hclose
  | none =>
    rw [hclose] at hrun
    dsimp only [Bool.false_eq_true, if_false] at hrun
    rw [if_neg Bool.false_ne_true, run_bind, run_eat hinside] at hrun
    cases hseparator : htmlSeparator t.cursor.rest with
    | some m =>
      rw [hseparator] at hrun
      dsimp only at hrun
      rw [run_cursor_bind, Bool.not_true, Bool.false_and, if_neg Bool.false_ne_true] at hrun
      obtain ⟨rfl, ⟨hrest, rfl⟩ | ⟨hon, hlt⟩⟩ :=
        stays_or_leaves (Reading.inside_skip hinside _) hrun
      · exact .separates hentry hclose hseparator hrest
      · have hskip : t.Onward (t.skip m.length) := ⟨Cursor.onward_skip hinside _, rfl, rfl⟩
        exact .leaves hentry (hskip.trans hon) hlt
    | none =>
      rw [hseparator] at hrun
      dsimp only at hrun
      rw [run_cursor_bind, Bool.not_false, Bool.true_and] at hrun
      by_cases hend : t.cursor.isEnd = true
      · rw [hend, Bool.not_true, if_neg Bool.false_ne_true] at hrun
        obtain ⟨rfl, ⟨hrest, -⟩ | ⟨hon, hlt⟩⟩ := stays_or_leaves hinside hrun
        · exact absurd ((Cursor.isEnd_iff hinside).mp hend) hrest
        · exact .leaves hentry hon hlt
      · rw [Bool.eq_false_iff.mpr hend, Bool.not_false, if_pos rfl, run_expected_bind hinside]
          at hrun
        cases hrun

section Turn
variable {m : Match} (found : List Node) (h : s.cursor.Inside)
  (reads : htmlEntry.run r = (.ok n, s))
include h reads

theorem run_nextHtmlEntry_closes (closed : htmlClose s.cursor.rest = some m) :
    (nextHtmlEntry found).run r = (.ok (.done (found ++ [n])), s.skip m.length) := by
  unfold nextHtmlEntry
  rw [run_bind, reads]
  dsimp only
  rw [run_bind, run_eat h, closed]
  rfl

theorem run_nextHtmlEntry_separates (goesOn : htmlClose s.cursor.rest = none)
    (separated : htmlSeparator s.cursor.rest = some m)
    (stays : (s.skip m.length).cursor.rest ≠ []) :
    (nextHtmlEntry found).run r = (.ok (.yield (found ++ [n])), s.skip m.length) := by
  have hend := mt (Cursor.isEnd_iff (Reading.inside_skip h m.length)).mp stays
  unfold nextHtmlEntry
  rw [run_bind, reads]
  dsimp only
  rw [run_bind, run_eat h, goesOn]
  dsimp only
  rw [if_neg Bool.false_ne_true, run_bind, run_eat h, separated]
  dsimp only
  rw [run_cursor_bind, Bool.not_true, Bool.false_and, if_neg Bool.false_ne_true, run_cursor_bind,
    if_neg hend]
  rfl

end Turn

/-- Every turn reads on, and one that is not the last leaves less of the source. -/
theorem Turns.onward (h : r.cursor.Inside) (ht : Turns found r x s) :
    r.Onward s ∧ ∀ b, x = .yield b → s.cursor.remaining < r.cursor.remaining := by
  cases ht with
  | closes reads closed =>
    obtain ⟨hon, -⟩ := (reads_htmlEntry (i := true) h).of_run reads
    exact ⟨hon.trans ⟨Cursor.onward_skip hon.inside _, rfl, rfl⟩, nofun⟩
  | separates reads _ separated _ =>
    obtain ⟨hon, -, -, hlt⟩ := (reads_htmlEntry (i := true) h).of_run reads
    have hskip := Cursor.onward_skip hon.inside
    exact ⟨hon.trans ⟨hskip _, rfl, rfl⟩, fun _ _ => Nat.lt_of_le_of_lt (hskip _).remaining hlt⟩
  | leaves reads onward _ =>
    obtain ⟨hon, -, -, hlt⟩ := (reads_htmlEntry (i := true) h).of_run reads
    exact ⟨hon.trans onward, fun _ _ => Nat.lt_of_le_of_lt onward.remaining_le hlt⟩

/-- A list is read in turns. -/
theorem turns_of_list (h : r.cursor.Inside)
    (hrun : (repeatWhile nextHtmlEntry found).run r = (.ok nodes, s)) :
    Turns found r (.done nodes) s ∨ ∃ more t, Turns found r (.yield more) t ∧
      t.cursor.remaining < r.cursor.remaining ∧
      (repeatWhile nextHtmlEntry more).run t = (.ok nodes, s) := by
  rcases hstep : (nextHtmlEntry found).run r with ⟨e | x, t⟩
  · rw [run_repeatWhile_error hstep] at hrun
    cases hrun
  · have hturn := turns_of_run h hstep
    cases x with
    | done b =>
      rw [run_repeatWhile_done hstep] at hrun
      obtain ⟨hb, rfl⟩ := Prod.mk.inj hrun
      rw [← Except.ok.inj hb]
      exact Or.inl hturn
    | yield b =>
      have hlt := (hturn.onward h).2 b rfl
      rw [run_repeatWhile_yield hstep hlt] at hrun
      exact Or.inr ⟨b, t, hturn, hlt, hrun⟩

/-- A list is read on. What was found stays in front, and the entry that is read comes next. -/
theorem prefix_of_list (h : r.cursor.Inside)
    (hrun : (repeatWhile nextHtmlEntry found).run r = (.ok nodes, s)) :
    r.Onward s ∧ ∃ n t, htmlEntry.run r = (.ok n, t) ∧ found ++ [n] <+: nodes := by
  induction hn : r.cursor.remaining using Nat.strongRecOn generalizing found r with
  | ind k ih =>
    subst hn
    rcases turns_of_list h hrun with hturn | ⟨more, t, hturn, hlt, hrest⟩
    · refine ⟨(hturn.onward h).1, ?_⟩
      cases hturn with
      | closes reads _ => exact ⟨_, _, reads, List.prefix_rfl⟩
    · have hon := (hturn.onward h).1
      obtain ⟨hon', n', -, -, hprefix⟩ := ih _ hlt hon.inside hrest rfl
      refine ⟨hon.trans hon', ?_⟩
      have hmore := (List.prefix_append more [n']).trans hprefix
      cases hturn with
      | separates reads => exact ⟨_, _, reads, hmore⟩
      | leaves reads => exact ⟨_, _, reads, hmore⟩

end Loop

end Production

end TemplateTree
