import TemplateTree.Proofs.Gaps.Carrying

/-!
# Blocks before a gap of blank lines

A block that ends before the gap is the same for both readings. A block that ends at the gap takes
the blank lines of the second source too, and then both readings have the same lines ahead. Raw lines
leave blank lines out, so a silent comment says the same with them; a filter keeps them.
-/

set_option autoImplicit false

namespace TemplateTree

open Production Comparison

/-- A list starts with elements of one kind and goes on with one of another kind, if it goes on. -/
theorem Text.exists_first (p : List Char → Bool) (lines : List (List Char)) :
    (∃ taken line rest, lines = taken ++ line :: rest ∧ (∀ l ∈ taken, p l) ∧ p line = false) ∨
      ∀ l ∈ lines, p l := by
  induction lines with
  | nil => exact Or.inr (by simp)
  | cons first lines ih =>
    by_cases hp : p first
    · rcases ih with ⟨taken, line, rest, rfl, htaken, hline⟩ | hall
      · refine Or.inl ⟨first :: taken, line, rest, rfl, ?_, hline⟩
        exact List.forall_mem_cons.mpr ⟨hp, htaken⟩
      · exact Or.inr (List.forall_mem_cons.mpr ⟨hp, hall⟩)
    · exact Or.inl ⟨[], first, lines, rfl, by simp, by simpa using hp⟩

/-- Readings of lines that are the same but for a gap of blank lines in the second source, which lies
before the lines `tail`. -/
structure Lags (tail : List (List Char)) (r r' : Reading) : Prop where
  filename : r'.cursor.filename = r.cursor.filename
  indent : r'.indent = r.indent
  ahead : ∃ shared blanks, (∀ line ∈ blanks, Text.isBlankLine line) ∧
    r.cursor.upcoming = shared ++ tail ∧ r'.cursor.upcoming = shared ++ (blanks ++ tail)

variable {tail blanks : List (List Char)} {c : Cursor} {r r' : Reading}

theorem Apart.lags (h : Apart tail (blanks ++ tail) r r')
    (hblanks : ∀ line ∈ blanks, Text.isBlankLine line) : Lags tail r r' := by
  obtain ⟨c, h⟩ := h
  exact ⟨h.filename, h.indent, c.upcoming, blanks, hblanks, h.upcoming, h.upcoming'⟩

namespace Production

theorem takeWhile_of_first {p : List Char → Bool} {taken rest : List (List Char)}
    {line : List Char} (htaken : ∀ l ∈ taken, p l) (hline : p line = false) :
    (taken ++ line :: rest).takeWhile p = taken := by
  rw [List.takeWhile_append_of_pos htaken, List.takeWhile_cons_of_neg (by simp [hline]),
    List.append_nil]

theorem run_block {α : Type} {body : Bool → Production α} {lines : List (List Char)}
    (h : blockLines r = lines) :
    (block body).run r = (lines.mapM fun line => do body (← enterBlockLine line)).run r := by
  unfold block
  rw [run_get_bind, h]

theorem upcoming_of_block {α : Type} {body : Bool → Production α} {P : α → Prop} {as : List α}
    {s : Reading} (h : r.cursor.Inside)
    (hbody : ∀ blank t, t.cursor.Inside → Reads (body blank) t fun a u => P a ∧
      u.cursor.entered = t.cursor.entered)
    (hrun : (block body).run r = (.ok as, s)) :
    r.cursor.upcoming = blockLines r ++ s.cursor.upcoming := by
  obtain ⟨-, -, hrest⟩ := (reads_block_upcoming h hbody).of_run hrun
  rw [hrest]
  exact List.takeWhile_append_dropWhile.symm

theorem run_rawLine_of_blank {line : List Char} (hblank : Text.isBlankLine line) :
    (do rawLine (← enterBlockLine line) : Production (Option Node)).run r =
      (.ok none, { r with cursor := r.cursor.nextLine.2.skipRest }) := by
  unfold enterBlockLine rawLine restAsText restOfLine nextLine
  rw [if_pos hblank, run_bind]
  rfl

/-- Blank lines of a block of raw lines leave nothing. -/
theorem exists_run_blankLines {lines rest : List (List Char)}
    (hblank : ∀ line ∈ lines, Text.isBlankLine line) (hl : r.cursor.upcoming = lines ++ rest) :
    ∃ ns s, (lines.mapM fun line => do rawLine (← enterBlockLine line)).run r = (.ok ns, s) ∧
      ns.filterMap id = [] ∧ s.cursor.upcoming = rest ∧ s.indent = r.indent ∧
        s.cursor.filename = r.cursor.filename := by
  induction lines generalizing r with
  | nil => exact ⟨[], r, rfl, rfl, hl, rfl, rfl⟩
  | cons line lines ih =>
    obtain ⟨hline, hlines⟩ := List.forall_mem_cons.mp hblank
    have hp : r.cursor.peekLine = some line := Cursor.peekLine_of_upcoming hl
    have hfirst := run_rawLine_of_blank (r := r) hline
    have hupcoming : r.cursor.nextLine.2.skipRest.upcoming = lines ++ rest :=
      Cursor.upcoming_nextLine hl
    have hfilename : r.cursor.nextLine.2.filename = r.cursor.filename := by
      rw [Cursor.nextLine_eq hp]
    let q : Reading := { r with cursor := r.cursor.nextLine.2.skipRest }
    obtain ⟨ns, s, hrun, hnone, hrest, hindent, hfile⟩ := ih (r := q) hlines hupcoming
    refine ⟨none :: ns, s, ?_, hnone, hrest, hindent, hfile.trans hfilename⟩
    rw [List.mapM_cons, run_bind, hfirst]
    dsimp only
    rw [run_bind, hrun]
    rfl

end Production

namespace Split
variable {tail' : List (List Char)}

theorem blockLines_cases (h : Split tail tail' c r r') :
    (∃ taken rest, c.upcoming = taken ++ rest ∧ blockLines r = taken ∧ blockLines r' = taken) ∨
      blockLines r = c.upcoming ++ tail.takeWhile (inBlock r.indent) ∧
        blockLines r' = c.upcoming ++ tail'.takeWhile (inBlock r.indent) := by
  have hlines : blockLines r = (c.upcoming ++ tail).takeWhile (inBlock r.indent) := by
    rw [← h.upcoming]
    rfl
  have hlines' : blockLines r' = (c.upcoming ++ tail').takeWhile (inBlock r.indent) := by
    rw [← h.upcoming', ← h.indent]
    rfl
  rw [hlines, hlines']
  rcases Text.exists_first (inBlock r.indent) c.upcoming with
    ⟨taken, line, rest, hshared, htaken, hline⟩ | hall
  · refine Or.inl ⟨taken, line :: rest, hshared, ?_, ?_⟩
    · rw [hshared, List.append_assoc]
      exact takeWhile_of_first htaken hline
    · rw [hshared, List.append_assoc]
      exact takeWhile_of_first htaken hline
  · refine Or.inr ⟨?_, ?_⟩
    · exact List.takeWhile_append_of_pos hall
    · exact List.takeWhile_append_of_pos hall

/-- A block that ends at the gap takes the lines before it. -/
theorem blockLines_eq (h : Split tail tail' c r r') {s : Reading}
    (hahead : r.cursor.upcoming = blockLines r ++ s.cursor.upcoming)
    (hlines : blockLines r = c.upcoming ++ tail.takeWhile (inBlock r.indent))
    (hs : s.Before tail) :
    blockLines r = c.upcoming ∧ tail.takeWhile (inBlock r.indent) = [] := by
  have hlength := congrArg List.length hahead
  rw [h.upcoming, hlines, List.length_append, List.length_append, List.length_append] at hlength
  have hnone : tail.takeWhile (inBlock r.indent) = [] := by
    apply List.eq_nil_of_length_eq_zero
    unfold Reading.Before at hs
    omega
  exact ⟨by rw [hlines, hnone, List.append_nil], hnone⟩

/-- Lines before the gap, read as lines of a block. -/
theorem carries_mapM_blockLine (h : Split tail tail' c r r') {α β : Type} (view : List α → β)
    (Q : Comparison → α → α → Prop) {body : Bool → Production α} {P : α → Prop}
    (hbody : ∀ (K : Comparison) blank t t', K.Alike t t' →
      K.Agree False (body blank) (body blank) t t' fun a a' _ _ => Q K a a')
    (hreads : ∀ blank t, t.cursor.Inside → Reads (body blank) t fun a u => P a ∧
      u.cursor.entered = t.cursor.entered)
    (hview : ∀ extra s as as', List.Forall₂ (Q (sight extra r s)) as as' → view as = view as')
    {taken rest : List (List Char)} (hl : c.upcoming = taken ++ rest) :
    Carries (fun _ _ => True) (taken.mapM fun line => do body (← enterBlockLine line))
      (taken.mapM fun line => do body (← enterBlockLine line)) r r' fun as as' s s' =>
        view as = view as' ∧ Apart tail tail' s s' :=
  h.carries view fun _ _ hindent hs =>
    (agree_mapM_blockLine (fun line => congrArg (Indent.below 1 line) hindent) (hbody _) hreads hs
      taken rest hl).imp fun as as' _ _ _ has => hview _ _ as as' has

theorem carries_mapM_rawLine (h : Split tail tail' c r r') {taken rest : List (List Char)}
    (hl : c.upcoming = taken ++ rest) :
    Carries (fun _ _ => True) (taken.mapM fun line => do rawLine (← enterBlockLine line))
      (taken.mapM fun line => do rawLine (← enterBlockLine line)) r r' fun ns ns' s s' =>
        SameColumns (ns.filterMap id) (ns'.filterMap id) ∧ Apart tail tail' s s' :=
  h.carries_mapM_blockLine (fun ns => (ns.filterMap id).map Node.lineless) PairLine
    (fun _ blank _ _ ht => agree_rawLine ht blank) (fun blank _ ht => reads_rawLine ht blank)
    (fun _ _ _ _ hns => (pairs_filterMap hns).same) hl

theorem carries_rawLines (h : Split tail (blanks ++ tail) c r r')
    (hblanks : ∀ line ∈ blanks, Text.isBlankLine line) :
    Carries (fun _ s => s.Before tail) rawLines rawLines r r' fun ns ns' s s' =>
      SameColumns ns ns' ∧ Lags tail s s' := by
  rw [rawLines_eq]
  have hblock : Carries (fun _ s => s.Before tail) (block rawLine) (block rawLine) r r'
      fun ns ns' s s' => SameColumns (ns.filterMap id) (ns'.filterMap id) ∧ Lags tail s s' := by
    intro ns s hrun hs
    have hahead := upcoming_of_block h.inside (fun blank t ht => reads_rawLine ht blank) hrun
    rcases h.blockLines_cases with ⟨taken, rest, hl, hlines, hlines'⟩ | ⟨hlines, hlines'⟩
    · rw [run_block hlines] at hrun
      obtain ⟨ns', s', hrun', hsame, hs'⟩ := h.carries_mapM_rawLine hl ns s hrun trivial
      exact ⟨ns', s', (run_block hlines').trans hrun', hsame, hs'.lags hblanks⟩
    · -- the block ends at the gap, where the second one takes the blank lines
      obtain ⟨hlines, hrest⟩ := h.blockLines_eq hahead hlines hs
      have hgap : (blanks ++ tail).takeWhile (inBlock r.indent) = blanks := by
        rw [List.takeWhile_append_of_pos fun line hline => by simp [inBlock, hblanks line hline],
          hrest, List.append_nil]
      rw [hgap] at hlines'
      rw [run_block hlines] at hrun
      obtain ⟨ns', s', hrun', hsame, d, hd⟩ := h.carries_mapM_rawLine (List.append_nil _).symm
        ns s hrun trivial
      have hat : s.cursor.upcoming = tail :=
        List.append_cancel_left (hahead.symm.trans (by rw [h.upcoming, hlines]))
      have hempty : d.upcoming = [] :=
        List.append_cancel_right (hd.upcoming.symm.trans (hat.trans (List.nil_append tail).symm))
      have hat' : s'.cursor.upcoming = blanks ++ tail := by rw [hd.upcoming', hempty]; rfl
      obtain ⟨ms, u, hlast, hnone, hahead', hindent, hfilename⟩ := exists_run_blankLines hblanks hat'
      refine ⟨ns' ++ ms, u, ?_, ?_, hfilename.trans hd.filename, hindent.trans hd.indent, [], [],
        by simp, hat, hahead'⟩
      · rw [run_block hlines', List.mapM_append, run_bind, hrun']
        dsimp only
        rw [run_bind, hlast]
        rfl
      · rwa [List.filterMap_append, hnone, List.append_nil]
  exact hblock.bind_pure (fun _ _ hu => hu) fun ns ns' s s' hns => hns

/-- The block of a filter, which ends before the gap. -/
theorem carries_filterBlock (h : Split tail tail' c r r') (g : Grammar) :
    Carries (fun _ s => tail.length < s.cursor.upcoming.length) (block (filterLine g))
      (block (filterLine g)) r r' fun ns ns' s s' =>
        SameColumns ns ns' ∧ Apart tail tail' s s' := by
  have hreads : ∀ blank t, t.cursor.Inside → Reads (filterLine g blank) t _ :=
    fun blank t ht => reads_filterLine ht g blank
  intro ns s hrun hs
  have hahead := upcoming_of_block h.inside hreads hrun
  rcases h.blockLines_cases with ⟨taken, rest, hl, hlines, hlines'⟩ | ⟨hlines, -⟩
  · rw [run_block hlines] at hrun
    obtain ⟨ns', s', hrun', hsame, hs'⟩ := h.carries_mapM_blockLine (List.map Node.lineless)
      (fun K => K.Pair) (fun _ blank _ _ ht => agree_filterLine ht g blank) hreads
      (fun _ _ _ _ hns => (pairs_of_forall₂ hns).same) hl ns s hrun trivial
    exact ⟨ns', s', (run_block hlines').trans hrun', hsame, hs'⟩
  · have hlength := congrArg List.length hahead
    rw [h.upcoming, hlines, List.length_append, List.length_append, List.length_append] at hlength
    omega

end Split

end TemplateTree
