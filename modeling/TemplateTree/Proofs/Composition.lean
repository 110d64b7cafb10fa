import TemplateTree.Proofs.Following

/-!
# Templates one after the other

A template may be put after another one. Where the first ends with a line feed and the second starts
with a statement of the first level, reading both gives the statements of the first and then those of
the second, as long as nothing in the second depends on whether its unit of indentation was known
before.
-/

set_option autoImplicit false

namespace TemplateTree

open Production Correspondence

section Ends
variable {g : Grammar} {source filename : String} {firstLine : Int} {es : List Entry}
  {r r' r₁ r₂ : Reading} {said : Entry}

/-- A line that is entered and added is the first of those that are left. -/
theorem run_lines_of_step (reads : (nextEntry g).run r = (.ok (some said), r₁))
    (places : (place said).run r₁ = (.ok (), r₂)) : (lines g).run r = (lines g).run r₂ := by
  have hless := (advances_of_run reads places).less
  unfold lines repeatWhile
  rw [ExceptT.run_mk]
  conv_lhs => unfold iterate
  unfold nextStatement
  rw [run_bind, reads]
  dsimp only
  rw [run_bind, places]
  exact if_pos hless

theorem Run.run_lines_eq (h : Run g r es r') : (lines g).run r = (lines g).run r' := by
  induction h with
  | start => rfl
  | step _ reads places ih => exact ih.trans (run_lines_of_step reads places)

theorem run_lines_of_peek_none (h : r.cursor.peekLine = none) :
    ∃ r', (lines g).run r = (.ok (), r') ∧ r'.indent = r.indent ∧ r'.outline = r.outline := by
  refine ⟨{ r with cursor := r.cursor.nextLine.2 }, ?_, rfl, rfl⟩
  unfold lines repeatWhile
  rw [ExceptT.run_mk]
  unfold iterate nextStatement
  rw [run_bind, run_nextEntry_of_none h]
  rfl

/-- A run up to the end of a source gives the tree of the template. -/
theorem Run.readTemplate_eq (h : Run g (.opening g source filename firstLine) es r)
    (hend : r.cursor.peekLine = none) :
    (readTemplate g source filename firstLine).1 = .ok r.outline.root ∧
      (readTemplate g source filename firstLine).2.indent = r.indent := by
  obtain ⟨r', hlines, hindent, houtline⟩ := run_lines_of_peek_none (g := g) hend
  rw [← h.run_lines_eq] at hlines
  unfold readTemplate
  rw [run_bind]
  rw [show ExceptT.run (record (.parsing filename g.dialect.name)) (Reading.start g source filename
    firstLine (.root [] (some (.of firstLine 1 0)))) =
      (.ok (), .opening g source filename firstLine) from rfl]
  dsimp only
  rw [run_bind, hlines, ← hindent, ← houtline]
  exact ⟨rfl, rfl⟩

/-- The run of a template that can be read. -/
theorem exists_run_to_end {root : Node} (h : (readTemplate g source filename firstLine).1 = .ok root) :
    ∃ es r, Run g (.opening g source filename firstLine) es r ∧ r.cursor.upcoming = [] ∧
      r.outline.root = root ∧ (readTemplate g source filename firstLine).2.indent = r.indent := by
  obtain ⟨es, r, r', hrun, hnext, hroot⟩ := exists_run_of_readTemplate h
  cases finds_of_nextEntry hnext with
  | finish peek =>
    refine ⟨es, r, hrun, ?_, hroot, (hrun.readTemplate_eq peek).2⟩
    rw [Cursor.peekLine_eq] at peek
    exact List.head?_eq_none_iff.mp peek

end Ends

section Append
variable {g : Grammar} {a b filename : String} {firstLine : Int} {es : List Entry} {r : Reading}

/-- A source that starts with a line of text that is not joined. -/
def Text.StartsWithStatement (source : List Char) : Prop :=
  ∃ line ∈ (Line.ofSource source).head?, isBlankLine line.text = false ∧
    isMultiline line.text = false

/-- The first statement of a template that starts with one, which is not indented. -/
theorem exists_first_step (hstart : Text.StartsWithStatement b.toList)
    (hrun : Run g (.opening g b filename firstLine) es r) (hend : r.cursor.upcoming = []) :
    ∃ line node previous rest r₁ r₂, (Reading.opening g b filename firstLine).cursor.peekLine = some line ∧
      Text.isBlankLine line = false ∧ Text.isMultiline line = false ∧
      Pattern.run Text.isIndent line = [] ∧
      (nextEntry g).run (.opening g b filename firstLine) =
        (.ok (some (.statement node 0 previous)), r₁) ∧
      (place (.statement node 0 previous)).run r₁ = (.ok (), r₂) ∧ Run g r₂ rest r := by
  obtain ⟨l, hl, hblank, hplain⟩ := hstart
  have hpeek : (Reading.opening g b filename firstLine).cursor.peekLine = some l.text := by
    have hfirst : (Text.Line.ofSource b.toList)[0]? = some l := by
      rw [← List.head?_eq_getElem?]
      exact hl
    exact congrArg (Option.map (·.text)) hfirst
  cases es with
  | nil =>
    obtain rfl := hrun.eq_of_nil
    rw [Cursor.peekLine_eq, hend] at hpeek
    cases hpeek
  | cons said rest =>
    obtain ⟨r₁, r₂, reads, places, hrest⟩ := hrun.exists_of_cons
    cases finds_of_nextEntry reads with
    | blank entered =>
      have hvanished := isBlankLine_of_nextEntry reads
      have hline : (Reading.opening g b filename firstLine).cursor.nextLine.2.line = l.text := by
        rw [Cursor.nextLine_eq hpeek]
      rw [Cursor.joined_of_plain (by rw [hline]; exact hplain), hline, hblank] at hvanished
      cases hvanished
    | @statement line node level previous entered stated =>
      obtain rfl : line = l.text := Option.some.inj (entered.peek.symm.trans hpeek)
      obtain ⟨hindent, rfl, -⟩ | ⟨hnotStart, -⟩ := Indent.check_ok stated.check
      · exact ⟨l.text, node, previous, rest, r₁, r₂, hpeek, hblank, hplain, hindent, reads, places, hrest⟩
      · cases hnotStart

/-- The part of a run over two sources that reads the first one. -/
theorem exists_run_append (hend : a.toList.getLast? = some '\n')
    (hover : StartsOver ((Text.Line.ofSource b.toList).map (·.text)))
    (hrun : Run g (.opening g a filename firstLine) es r) :
    ∃ es' r', Run g (.opening g (a ++ b) filename firstLine) es' r' ∧
      Follows id ((Text.Line.ofSource b.toList).map (·.text)) [] none r r' := by
  have hstart : Follows id ((Text.Line.ofSource b.toList).map (·.text)) [] none
      (.opening g a filename firstLine) (.opening g (a ++ b) filename firstLine) := by
    refine ⟨⟨?_, rfl, rfl, [], _, _, rfl, rfl⟩, rfl, rfl⟩
    unfold Reading.opening Reading.start
    rw [String.toList_append]
    exact ahead_start hend b.toList filename firstLine
  exact hstart.run hover .start .start hrun (Or.inl rfl)

/-- A second source is read after the first one as it is on its own. -/
theorem trails_append {es' : List Entry} {r' : Reading} (hend : a.toList.getLast? = some '\n')
    (hstart : Text.StartsWithStatement b.toList) (hnone : r.cursor.upcoming = [])
    (hrun' : Run g (.opening g (a ++ b) filename firstLine) es' r')
    (h : Follows id ((Text.Line.ofSource b.toList).map (·.text)) [] none r r') :
    Trails (.later (Text.splitLines a.toList).length a.toList.length) [] r.outline.root.children
      r.indent.unit (.opening g b filename firstLine) r' := by
  have hset' := hrun'.settled
  have hlines := hset'.lines
  rw [String.toList_append] at hlines
  have hupcoming := h.ahead.upcoming
  rw [hnone, List.nil_append] at hupcoming
  have hentered : r'.cursor.entered = (Text.splitLines a.toList).length := by
    have hcount := congrArg List.length hupcoming
    have hall := congrArg List.length hlines
    rw [Text.Line.ofSource_append hend, List.length_append, List.length_map,
      Text.Line.length_ofSource] at hall
    simp only [Cursor.upcoming, Cursor.ahead, List.length_map, List.length_drop, moved] at hcount
    obtain ⟨l, hl, -⟩ := hstart
    have hpositive : 0 < (Text.Line.ofSource b.toList).length :=
      List.length_pos_of_mem (List.mem_of_mem_head? hl)
    omega
  obtain ⟨ds, p, q, hroot, hroot'⟩ := h.roots
  refine ⟨ahead_later hend hset'.filename hset'.firstLine hlines hentered, ?_, ?_, [], _, q, rfl, ?_⟩
  · rw [h.unit, Option.or_none]
    exact (Option.none_or).symm
  · rw [hset'.limited]
    rfl
  · rw [hroot', hroot]
    simp only [Node.children, List.nil_append, List.map_nil, List.append_nil, Node.root.injEq, and_true]
    exact List.map_congr_left (fun n _ => Node.relocate_id n) |>.trans (List.map_id _)

/-- Two templates that are read one after the other. The first one ends with a line feed, and the
second one starts with a statement. Either the first one has no indented line, or the second one has
no block of raw lines and no other unit of indentation than the first one. Then both together are a
template with the statements of the first and those of the second, which lie as many lines and
characters later as the first has. -/
theorem readTemplate_append {rootA rootB : Node}
    (ha : (readTemplate g a filename firstLine).1 = .ok rootA)
    (hb : (readTemplate g b filename firstLine).1 = .ok rootB)
    (hend : a.toList.getLast? = some '\n') (hstart : Text.StartsWithStatement b.toList)
    (hunit : (readTemplate g a filename firstLine).2.indent.unit = none ∨
      ((readTemplate g b filename firstLine).2.indent.unit = none ∨
        (readTemplate g b filename firstLine).2.indent.unit =
          (readTemplate g a filename firstLine).2.indent.unit) ∧
        rootB.Everywhere fun n => n.ownsRawLines = false) :
    ∃ root, (readTemplate g (a ++ b) filename firstLine).1 = .ok root ∧
      root.children = rootA.children ++ rootB.children.map
        (Node.relocate (.later (Text.splitLines a.toList).length a.toList.length)) := by
  obtain ⟨esA, rA, hrunA, hendA, rfl, hindentA⟩ := exists_run_to_end ha
  obtain ⟨esB, rB, hrunB, hendB, rfl, hindentB⟩ := exists_run_to_end hb
  rw [hindentA, hindentB] at hunit
  have hcompatible : Compatible rA.indent.unit rB := hunit
  obtain ⟨line, node, previous, rest, r₁, r₂, hpeek, hblank, hplain, hindent, reads, places, hrest⟩ :=
    exists_first_step hstart hrunB hendB
  have hover : StartsOver ((Text.Line.ofSource b.toList).map (·.text)) := by
    intro text htext
    rw [Cursor.peekLine_eq] at hpeek
    obtain rfl : line = text := Option.some.inj (hpeek.symm.trans htext)
    exact ⟨hblank, hplain, hindent⟩
  have hover' : StartsOver [] := fun _ h => nomatch h
  -- both sources are read up to the end of the first, then the first statement of the second is
  -- read at the level that the first source ended with
  obtain ⟨es, q, hrun, hfollows⟩ := exists_run_append hend hover hrunA
  have htrails := trails_append hend hstart hendA hrun hfollows
  have hfirst := Run.step .start reads places
  have hcheck : ∀ indent, (Reading.opening g b filename firstLine).indent.check indent true =
      (.ok 0, r₁.indent) → ∃ t', q.indent.check indent q.outline.last.isNone = (.ok 0, t') ∧
        t'.unit = r₁.indent.unit.or rA.indent.unit := by
    intro indent hok
    obtain ⟨rfl, -, hr₁⟩ | ⟨hnotStart, -⟩ := Indent.check_ok hok
    · exact ⟨_, rfl, by rw [hr₁]; exact htrails.unit⟩
    · cases hnotStart
  obtain ⟨said, q₁, q₂, reads', places', hsecond⟩ := htrails.statement hover' .start hrun.settled
    reads places (hcompatible.of_run hfirst hrest) hcheck (Nat.zero_le _)
    (fun hlt => absurd hlt (Nat.not_lt_zero _)) fun _ => rfl
  have hrunAB := Run.step hrun reads' places'
  -- from there on both runs are at the same level
  obtain ⟨es', s, hrest', hlast⟩ := hsecond.run hover' hfirst hrunAB hrest hcompatible
  have hends : s.cursor.peekLine = none := by
    rw [Cursor.peekLine_eq, hlast.ahead.upcoming, hendB]
    rfl
  obtain ⟨ds, p, p', hroot, hroot'⟩ := hlast.roots
  refine ⟨s.outline.root, ((hrunAB.trans hrest').readTemplate_eq hends).1, ?_⟩
  rw [hroot, hroot']
  rfl

/-- A template that ends with a block, and one with indented lines after it. -/
theorem readTemplate_append_block : ∃ rootA rootB root,
    (readTemplate (.standard .haml) "%a\n:f\n  x\n" "t" 1).1 = .ok rootA ∧
      (readTemplate (.standard .haml) "%b\n\tc\n" "t" 1).1 = .ok rootB ∧
      (readTemplate (.standard .haml) ("%a\n:f\n  x\n" ++ "%b\n\tc\n") "t" 1).1 = .ok root ∧
      root.children = rootA.children ++ rootB.children.map (Node.relocate (.later 3 10)) := by
  have hevalA : (readTemplate (.standard .haml) "%a\n:f\n  x\n" "t" 1).1.toOption.isSome := by
    decide +kernel
  have hevalB : (readTemplate (.standard .haml) "%b\n\tc\n" "t" 1).1.toOption.isSome := by
    decide +kernel
  have hunit : (readTemplate (.standard .haml) "%a\n:f\n  x\n" "t" 1).2.indent.unit = none := by
    decide +kernel
  have hstart : Text.StartsWithStatement "%b\n\tc\n".toList :=
    ⟨_, rfl, by decide +kernel, by decide +kernel⟩
  rcases ha : (readTemplate (.standard .haml) "%a\n:f\n  x\n" "t" 1).1 with _ | rootA
  · rw [ha] at hevalA
    cases hevalA
  rcases hb : (readTemplate (.standard .haml) "%b\n\tc\n" "t" 1).1 with _ | rootB
  · rw [hb] at hevalB
    cases hevalB
  obtain ⟨root, hroot, hchildren⟩ :=
    readTemplate_append ha hb (by decide +kernel) hstart (Or.inl hunit)
  exact ⟨rootA, rootB, root, rfl, rfl, hroot, hchildren⟩

end Append

end TemplateTree
