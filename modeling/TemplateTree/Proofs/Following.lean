import TemplateTree.Proofs.Appended
import TemplateTree.Proofs.Units

/-!
# Runs that follow one another

A run over a source can be followed by a run over another source that has the same lines, also where
that one has more lines in the end, or had statements before. The second run adds the same statements
at the same levels, moved to where they stand in its source, after what its outline already holds.
-/

set_option autoImplicit false

namespace TemplateTree

open Production Correspondence

namespace Node
variable {f : Position → Position} {cs ds : List Node} {p q : Option Position} {level : Nat}

theorem mem_subnodes_of_withChildren {n m : Node} (cs : List Node) (hm : m ∈ n.subnodes) :
    m ∈ n.children ∨ m ∈ (n.withChildren cs).subnodes := by
  cases n <;> simp only [withChildren, subnodes, children, List.mem_append] at hm ⊢ <;> tauto

/-- What holds in a tree held before a node was added, and holds in the node. -/
theorem Everywhere.of_addChildAt {P Q : Node → Prop} {n child : Node} {depth : Nat} (hq : Nests Q)
    (hsame : ∀ m cs, P (m.withChildren cs) → P m) (h : PathTo Q n depth) (hend : Q (n.lastAt depth))
    (hall : (n.addChildAt depth child).Everywhere P) : n.Everywhere P ∧ child.Everywhere P := by
  induction h with
  | here n =>
    have hchildren := children_withChildren (hq.canNest n hend) (n.children ++ [child])
    have hadded : ∀ m ∈ n.children ++ [child], m.Everywhere P := by
      intro m hm
      rw [← hchildren] at hm
      exact hall.of_mem (children_subset_subnodes hm)
    refine ⟨.intro (hsame _ _ hall.here) fun m hm => ?_, hadded child (by simp)⟩
    rcases mem_subnodes_of_withChildren (n.children ++ [child]) hm with hm | hm
    · exact hadded m (List.mem_append_left _ hm)
    · exact hall.of_mem hm
  | @step n last depth own hlast _ ih =>
    have hchildren := children_withChildren (hq.canNest n own)
      (n.children.dropLast ++ [last.addChildAt depth child])
    simp only [lastAt, hlast] at hend
    rw [Node.addChildAt] at hall
    simp only [hlast] at hall
    have hadded : ∀ m ∈ n.children.dropLast ++ [last.addChildAt depth child], m.Everywhere P := by
      intro m hm
      rw [← hchildren] at hm
      exact hall.of_mem (children_subset_subnodes hm)
    obtain ⟨hbelow, hchild⟩ := ih hend (hadded _ (by simp))
    refine ⟨.intro (hsame _ _ hall.here) fun m hm => ?_, hchild⟩
    rcases mem_subnodes_of_withChildren (n.children.dropLast ++ [last.addChildAt depth child]) hm
      with hm | hm
    · rw [← List.dropLast_append_getLast? _ hlast] at hm
      rcases List.mem_append.mp hm with hm | hm
      · exact hadded m (List.mem_append_left _ hm)
      · rwa [List.mem_singleton.mp hm]
    · exact hall.of_mem hm

theorem PathTo.children_ne_nil {Q : Node → Prop} {n : Node} (h : n.PathTo Q level) :
    level = 0 ∨ n.children ≠ [] := by
  cases h with
  | here => exact Or.inl rfl
  | step _ hlast =>
    refine Or.inr fun hnil => ?_
    rw [hnil] at hlast
    cases hlast

section Roots
variable (f cs p q) (hne : level = 0 ∨ ds ≠ [])
include hne

/-- A root with more children before its own takes the same statements. -/
theorem refusal?_lastAt_root :
    Outline.refusal? ((root (cs ++ ds.map (relocate f)) q).lastAt level) =
      Outline.refusal? ((root ds p).lastAt level) := by
  cases level with
  | zero => rfl
  | succ k =>
    obtain ⟨last, hlast⟩ := Option.isSome_iff_exists.mp
      (List.getLast?_isSome.mpr (hne.resolve_left (Nat.succ_ne_zero k)))
    have hmoved : (cs ++ ds.map (relocate f)).getLast? = some (last.relocate f) := by
      simp [List.getLast?_append, hlast]
    simp only [lastAt, children, hlast, hmoved]
    rw [lastAt_relocate, refusal?_relocate]

/-- A statement is added to a root with more children before its own as it is to its own. -/
theorem addChildAt_root (child : Node) : ∃ ds', (root ds p).addChildAt level child = root ds' p ∧
    (root (cs ++ ds.map (relocate f)) q).addChildAt level (child.relocate f) =
      root (cs ++ ds'.map (relocate f)) q := by
  cases level with
  | zero =>
    refine ⟨ds ++ [child], rfl, ?_⟩
    simp [addChildAt, addChild, children, withChildren]
  | succ k =>
    have hds := hne.resolve_left (Nat.succ_ne_zero k)
    obtain ⟨last, hlast⟩ := Option.isSome_iff_exists.mp (List.getLast?_isSome.mpr hds)
    have hmoved : (cs ++ ds.map (relocate f)).getLast? = some (last.relocate f) := by
      simp [List.getLast?_append, hlast]
    have hbefore : (cs ++ ds.map (relocate f)).dropLast = cs ++ ds.dropLast.map (relocate f) := by
      rw [List.dropLast_append_of_ne_nil (by simpa using hds), List.map_dropLast]
    refine ⟨ds.dropLast ++ [last.addChildAt k child], ?_, ?_⟩
    · simp only [addChildAt, children, hlast, withChildren]
    · simp only [addChildAt, children, hmoved, withChildren, hbefore, List.map_append, List.map_cons,
        List.map_nil, List.append_assoc, addChildAt_relocate]

end Roots

end Node

namespace Production
variable {g : Grammar} {r r' : Reading}

theorem Ensures.trivial {α : Type} (p : Production α) (r : Reading) :
    Ensures p r (fun _ _ => True) fun _ _ => True := by
  unfold Ensures
  rcases p.run r with ⟨_ | _, _⟩ <;> exact True.intro

/-- Only a line without text says nothing. -/
theorem ensures_blank (g : Grammar) (r : Reading) : Ensures (entry g) r
    (fun said _ => said = .blank → Text.isBlankLine r.cursor.line) fun _ _ => True := by
  unfold entry
  rw [ensures_cursor_bind]
  split
  · rename_i hblank
    exact fun _ => hblank
  · apply Ensures.bind (Ensures.trivial _ _)
    intro _ s _
    rw [ensures_get_bind]
    apply Ensures.bind (Ensures.trivial _ _)
    intro level t _
    apply Ensures.bind (Ensures.trivial _ _)
    intro found u _
    cases found with
    | none =>
      unfold expected
      rw [ensures_cursor_bind]
      exact Ensures.bind (Ensures.trivial _ _) fun _ _ _ => True.intro
    | some node => exact nofun

/-- A line that says nothing is blank with the lines that are joined to it. -/
theorem isBlankLine_of_nextEntry (h : (nextEntry g).run r = (.ok (some .blank), r')) :
    Text.isBlankLine r.cursor.nextLine.2.joined.line := by
  cases finds_of_nextEntry h with
  | blank entered =>
    let joined : Reading := { r with cursor := r.cursor.nextLine.2.joined }
    have hsaid : Ensures (do return some (← entry g) : Production (Option Entry)) joined
        (fun said _ => said = some .blank → Text.isBlankLine joined.cursor.line) fun _ _ => True := by
      apply Ensures.bind (ensures_blank g joined)
      intro said s hsaid heq
      exact hsaid (Option.some.inj heq)
    rw [run_nextEntry entered.peek] at h
    unfold Ensures at hsaid
    rw [h] at hsaid
    exact hsaid rfl

/-- Adding a statement asks the outline. -/
theorem place_statement_iff {node : Node} {level previous : Nat} :
    (place (.statement node level previous)).run r = (.ok (), r') ↔
      ∃ o, r.outline.insert node level previous = (.ok (), o) ∧ r' = { r with outline := o } := by
  rw [run_place_statement]
  rcases r.outline.insert node level previous with ⟨(cause | _) | ⟨⟩, o⟩
  · exact iff_of_false (fun h => nomatch (Prod.mk.inj h).1) fun ⟨_, h, _⟩ => nomatch (Prod.mk.inj h).1
  · exact iff_of_false (fun h => nomatch (Prod.mk.inj h).1) fun ⟨_, h, _⟩ => nomatch (Prod.mk.inj h).1
  · constructor
    · exact fun h => ⟨o, rfl, (Prod.mk.inj h).2.symm⟩
    · rintro ⟨o', h, rfl⟩
      rw [(Prod.mk.inj h).2]

end Production

/-- A reading of the same lines after statements of other lines. `unit` is the unit of those. -/
structure Trails (f : Position → Position) (extra : List (List Char)) (before : List Node)
    (unit : Option IndentUnit) (r r' : Reading) : Prop where
  ahead : (moved f extra).Ahead r.cursor r'.cursor
  unit : r'.indent.unit = r.indent.unit.or unit
  maxDepth : r'.outline.maxDepth = r.outline.maxDepth
  roots : ∃ ds p q, r.outline.root = .root ds p ∧
    r'.outline.root = .root (before ++ ds.map (Node.relocate f)) q

/-- A reading that has come to the same level. -/
structure Follows (f : Position → Position) (extra : List (List Char)) (before : List Node)
    (unit : Option IndentUnit) (r r' : Reading) : Prop extends Trails f extra before unit r r' where
  level : r'.indent.level = r.indent.level
  last : r'.outline.last = r.outline.last

/-- Nothing that was read depends on whether the unit was known before. -/
def Compatible (unit : Option IndentUnit) (r : Reading) : Prop :=
  unit = none ∨ (r.indent.unit = none ∨ r.indent.unit = unit) ∧
    r.outline.root.Everywhere fun n => n.ownsRawLines = false

/-- Lines that start with a statement of the first level, which is not joined. -/
def StartsOver (extra : List (List Char)) : Prop :=
  ∀ line ∈ extra.head?, Text.isBlankLine line = false ∧ Text.isMultiline line = false ∧
    Pattern.run Text.isIndent line = []

section Steps
variable {g : Grammar} {source source' filename filename' : String} {firstLine firstLine' : Int}
  {es es' : List Entry} {r r' r₁ r₂ : Reading} {node : Node} {level previous : Nat}
  {f : Position → Position} {extra : List (List Char)} {before : List Node}
  {unit : Option IndentUnit}

theorem StartsOver.startsFresh (h : StartsOver extra) : (moved f extra).StartsFresh :=
  fun line hline => ⟨(h line hline).1, (h line hline).2.1⟩

theorem StartsOver.ends (h : StartsOver extra) {t : Indent} (ht : t.Regular) :
    ∀ line ∈ extra.head?, inBlock t line = false :=
  fun line hline => ht.not_inBlock (h line hline).1 (h line hline).2.2

/-- The trackers end the block of a statement at the same line, or the statement has none. -/
theorem Compatible.sameBlocks (hc : Compatible unit r₂) (hover : StartsOver extra) {t t' : Indent}
    (ht : t.Regular) (hunit : t'.unit = t.unit.or unit) (hlevel : t'.level = t.level)
    {o o' : Outline} : ((moved f extra).knowing t t' o o').SameBlocks ∨
      r₂.outline.root.Everywhere fun n => n.ownsRawLines = false := by
  rcases hc with rfl | ⟨-, hnone⟩
  · rw [Option.or_none] at hunit
    refine Or.inl ⟨fun line => ?_, hover.ends ht⟩
    simp only [knowing, Indent.below, hunit, hlevel]
  · exact Or.inr hnone

/-- What a statement that is read leads to in the reading that trails. -/
theorem Trails.reads_statement (h : Trails f extra before unit r r') (hover : StartsOver extra)
    (hregular : r.indent.Regular) {line : List Char} (hstated : Stated g r r₁ line node level previous)
    (hpeek : r.cursor.peekLine = some line) {t' : Indent}
    (hcheck : r'.indent.check (Pattern.run Text.isIndent line) r'.outline.last.isNone = (.ok level, t'))
    (hunit : t'.unit = r₁.indent.unit.or unit)
    (reads : (nextEntry g).run r = (.ok (some (.statement node level previous)), r₁))
    (hcompatible : Compatible unit r₂)
    (hnode : (r₂.outline.root.Everywhere fun n => n.ownsRawLines = false) →
      node.Everywhere fun n => n.ownsRawLines = false) :
    ∃ r₁', (nextEntry g).run r' =
        (.ok (some (.statement (node.relocate f) level r'.indent.level)), r₁') ∧
      (moved f extra).Ahead r₁.cursor r₁'.cursor ∧ r₁'.outline = r'.outline ∧ r₁'.indent = t' := by
  have hregular₁ := hregular.check line r.outline.last.isNone
  rw [hstated.check] at hregular₁
  have hlevels := Indent.check_levels hcheck
  have hlevel : t'.level = r₁.indent.level :=
    hlevels.1.trans (Indent.check_levels hstated.check).1.symm
  rcases outcomes_nextEntry (g := g) h.ahead hover.startsFresh hpeek
    (fun _ => ⟨_, _, hstated.check, hcheck, Or.inl rfl⟩) (fun _ => trivial) with
    ⟨_, _, _, _, hrun, howns, hdiff⟩ | houtcomes
  · rw [reads] at hrun
    cases hrun
    rcases hcompatible.sameBlocks hover hregular₁ hunit hlevel with hsame | hnone
    · exact absurd hsame hdiff
    · exact absurd (hnode hnone) howns
  · rw [reads] at houtcomes
    rcases hrun : (nextEntry g).run r' with ⟨e | said, r₁'⟩
    · rw [hrun] at houtcomes
      exact houtcomes.elim
    · rw [hrun] at houtcomes
      obtain ⟨e, e', hsome, rfl, htogether, -, houtline, hsays⟩ := houtcomes
      obtain rfl := Option.some.inj hsome
      cases hsays with
      | @statement _ node' _ _ hindent' pair _ =>
        have hnode' : node.relocate f = node'.relocate id := pair.same
        rw [Node.relocate_id] at hnode'
        rw [hnode', ← hlevels.2]
        exact ⟨r₁', rfl, htogether.toAhead, houtline, hindent'⟩

/-- A statement is added to the outline that trails at the same level. -/
theorem Trails.insert (h : Trails f extra before unit r r')
    (hset' : Settled g source' filename' firstLine' es' r')
    (node : Node) (hpath : r.outline.root.PathTo Node.Accepts level)
    (haccepts : (r.outline.root.lastAt level).Accepts) (hle : level ≤ r'.indent.level + 1)
    (hroom : r'.indent.level < level → r'.outline.hasRoom)
    (hfirst : r'.outline.last = none → level = 0) :
    r'.outline.insert (node.relocate f) level r'.indent.level =
        (.ok (), r'.outline.withStatement (node.relocate f) level) ∧
      ∃ ds p q, (r.outline.withStatement node level).root = .root ds p ∧
        (r'.outline.withStatement (node.relocate f) level).root =
          .root (before ++ ds.map (Node.relocate f)) q := by
  obtain ⟨ds, p, q, hroot, hroot'⟩ := h.roots
  have hne : level = 0 ∨ ds ≠ [] := by
    have hchildren := hpath.children_ne_nil
    rwa [hroot] at hchildren
  have hat := hset'.levelled.grown.atLevel
  rw [← hset'.level] at hat
  constructor
  · have hopen : Outline.refusal? (r'.outline.root.lastAt level) = none := by
      rw [hroot', Node.refusal?_lastAt_root f before p q hne, ← hroot]
      exact haccepts
    rw [Outline.insert_eq hat hle hfirst, Outline.attach_eq, hopen, if_neg]
    rintro ⟨hlt, hfull⟩
    simp [hroom hlt] at hfull
  · obtain ⟨ds', hadd, hadd'⟩ := Node.addChildAt_root f before p q hne node
    refine ⟨ds', p, q, ?_, ?_⟩
    · rw [Outline.withStatement, hroot]
      exact hadd
    · rw [Outline.withStatement, hroot']
      exact hadd'

/-- A statement that is read and added in one reading is in the reading that trails, and both go on
from the same level. -/
theorem Trails.statement (h : Trails f extra before unit r r') (hover : StartsOver extra)
    (hrun : Run g (.opening g source filename firstLine) es r)
    (hset' : Settled g source' filename' firstLine' es' r')
    (reads : (nextEntry g).run r = (.ok (some (.statement node level previous)), r₁))
    (places : (place (.statement node level previous)).run r₁ = (.ok (), r₂))
    (hcompatible : Compatible unit r₂)
    (hcheck : ∀ indent, r.indent.check indent r.outline.last.isNone = (.ok level, r₁.indent) →
      ∃ t', r'.indent.check indent r'.outline.last.isNone = (.ok level, t') ∧
        t'.unit = r₁.indent.unit.or unit)
    (hle : level ≤ r'.indent.level + 1) (hroom : r'.indent.level < level → r'.outline.hasRoom)
    (hfirst : r'.outline.last = none → level = 0) :
    ∃ said r₁' r₂', (nextEntry g).run r' = (.ok (some said), r₁') ∧
      (place said).run r₁' = (.ok (), r₂') ∧ Follows f extra before unit r₂ r₂' := by
  have hplaced := hrun.settled.placed (advances_of_run reads places)
  obtain ⟨o, -, rfl⟩ := place_statement_iff.mp places
  obtain rfl : o = r.outline.withStatement node level := hplaced.outline
  have hnode : (r.outline.withStatement node level).root.Everywhere (fun n => n.ownsRawLines = false) →
      node.Everywhere fun n => n.ownsRawLines = false := by
    intro hall
    exact (Node.Everywhere.of_addChildAt Node.nests_accepts
      (fun m cs hm => Node.ownsRawLines_withChildren.symm.trans hm) hplaced.path hplaced.accepts hall).2
  cases finds_of_nextEntry reads with
  | @statement line _ _ _ entered stated =>
    obtain ⟨t', ht', hunit⟩ := hcheck _ stated.check
    obtain ⟨r₁', hreads', hahead, houtline, hindent⟩ := h.reads_statement hover hrun.regular stated
      entered.peek ht' hunit reads hcompatible hnode
    obtain ⟨hinsert, hroots⟩ := h.insert hset' node hplaced.path hplaced.accepts hle hroom hfirst
    rw [← houtline] at hinsert
    refine ⟨_, r₁', _, hreads', place_statement_iff.mpr ⟨_, hinsert, rfl⟩, ⟨hahead, ?_, ?_, ?_⟩, ?_, ?_⟩
    · rw [hindent]
      exact hunit
    · rw [houtline]
      exact h.maxDepth
    · rw [houtline]
      exact hroots
    · rw [hindent]
      exact (Indent.check_levels ht').1.trans (Indent.check_levels stated.check).1.symm
    · rfl

/-- A line that says nothing says nothing to a reading that trails. -/
theorem Trails.blank (h : Trails f extra before unit r r') (hover : StartsOver extra)
    (reads : (nextEntry g).run r = (.ok (some .blank), r₁)) :
    ∃ r₁', (nextEntry g).run r' = (.ok (some .blank), r₁') ∧
      (moved f extra).Ahead r₁.cursor r₁'.cursor ∧ r₁'.outline = r'.outline ∧
        r₁'.indent = r'.indent := by
  have hblank := isBlankLine_of_nextEntry reads
  cases finds_of_nextEntry reads with
  | @blank line entered =>
    -- the line is blank, so neither reading asks for its indentation
    have hchecks : Text.isBlankLine r.cursor.nextLine.2.joined.line = false →
        ChecksAlike True r r' (Pattern.run Text.isIndent line) r.indent r'.indent :=
      fun hne => absurd (hne.symm.trans hblank) Bool.false_ne_true
    rcases outcomes_nextEntry (g := g) h.ahead hover.startsFresh entered.peek hchecks
      (fun _ => trivial) with ⟨_, _, _, _, hrun, _⟩ | houtcomes
    · rw [reads] at hrun
      cases hrun
    · rw [reads] at houtcomes
      rcases hrun : (nextEntry g).run r' with ⟨e | said, r₁'⟩
      · rw [hrun] at houtcomes
        exact houtcomes.elim
      · rw [hrun] at houtcomes
        obtain ⟨e, e', hsome, rfl, htogether, -, houtline, hsays⟩ := houtcomes
        obtain rfl := Option.some.inj hsome
        cases hsays with
        | blank _ hindent' => exact ⟨r₁', rfl, htogether.toAhead, houtline, hindent'⟩

/-- One step of a reading and of the one that follows it. -/
theorem Follows.step (h : Follows f extra before unit r r') (hover : StartsOver extra)
    (hrun : Run g (.opening g source filename firstLine) es r)
    (hset' : Settled g source' filename' firstLine' es' r') {said : Entry}
    (reads : (nextEntry g).run r = (.ok (some said), r₁)) (places : (place said).run r₁ = (.ok (), r₂))
    (hcompatible : Compatible unit r₂) :
    ∃ said' r₁' r₂', (nextEntry g).run r' = (.ok (some said'), r₁') ∧
      (place said').run r₁' = (.ok (), r₂') ∧ Follows f extra before unit r₂ r₂' := by
  have hadv := advances_of_run reads places
  cases said with
  | blank =>
    obtain rfl : r₁ = r₂ := (Prod.mk.inj places).2
    obtain ⟨r₁', hreads', hahead, houtline', hindent'⟩ := h.toTrails.blank hover reads
    cases hadv with
    | blank entered hindent =>
      have houtline := entered.outline
      refine ⟨.blank, r₁', r₁', hreads', rfl, ⟨hahead, ?_, ?_, ?_⟩, ?_, ?_⟩
      · rw [hindent, hindent']
        exact h.unit
      · rw [houtline, houtline']
        exact h.maxDepth
      · rw [houtline, houtline']
        exact h.roots
      · rw [hindent, hindent']
        exact h.level
      · rw [houtline, houtline']
        exact h.last
  | statement node level previous =>
    have hset := hrun.settled
    have hplaced := hset.placed hadv
    obtain ⟨o, hinsert, hr₂⟩ := place_statement_iff.mp places
    cases finds_of_nextEntry reads with
    | @statement line _ _ _ entered stated =>
      have hreach := hset.le_reach stated
      have hat := hset.levelled.grown.atLevel
      have hat' := hset'.levelled.grown.atLevel
      rw [← hset.level] at hat
      rw [← hset'.level] at hat'
      have hle : level ≤ r.indent.level + 1 := by
        rw [hset.level]
        exact Nat.le_trans hreach Outline.reach_le
      have hfirst := hset.levelled.level_eq_zero hreach
      rw [entered.outline, stated.previous] at hinsert
      obtain ⟨hroom, -, -⟩ := Outline.insert_ok hat hle hfirst hinsert
      have hdepth : r'.outline.depth = r.outline.depth := by
        rw [hat.depth_eq, hat'.depth_eq, h.level]
      refine h.toTrails.statement hover hrun hset' reads places hcompatible ?_ ?_ ?_ ?_
      · intro indent hcheck
        rw [h.last]
        refine Indent.check_or h.unit h.level hcheck (hcompatible.imp_right fun hc => ?_)
        rw [hr₂] at hc
        exact hc.1
      · rw [h.level]
        exact hle
      · intro hlt
        rw [h.level] at hlt
        unfold Outline.hasRoom
        rw [hdepth, h.maxDepth]
        exact hroom.resolve_left (Nat.not_le.mpr hlt)
      · rw [h.last]
        exact hfirst

/-- What was read before depends no more on the unit than all that was read. -/
theorem Compatible.of_step (hset : Settled g source filename firstLine es r) {said : Entry}
    (hadv : Advances g r r₂ said) (h : Compatible unit r₂) : Compatible unit r := by
  refine h.imp_right fun ⟨hunit, hall⟩ => ?_
  cases said with
  | blank =>
    cases hadv with
    | blank entered hindent =>
      rw [hindent] at hunit
      rw [entered.outline] at hall
      exact ⟨hunit, hall⟩
  | statement node level previous =>
    have hplaced := hset.placed hadv
    rw [hplaced.outline] at hall
    refine ⟨?_, (Node.Everywhere.of_addChildAt Node.nests_accepts
      (fun m cs hm => Node.ownsRawLines_withChildren.symm.trans hm) hplaced.path hplaced.accepts
      hall).1⟩
    cases hadv with
    | statement entered stated inserts reading =>
      rw [reading] at hunit
      rcases Indent.unit_of_check_ok stated.check with hnone | hsame
      · exact Or.inl hnone
      · rwa [hsame]

end Steps

section Runs
variable {g : Grammar} {source source' filename filename' : String} {firstLine firstLine' : Int}
  {es₀ es₀' es : List Entry} {r r' s : Reading} {f : Position → Position}
  {extra : List (List Char)} {before : List Node} {unit : Option IndentUnit}

theorem Compatible.of_run (hr : Run g (.opening g source filename firstLine) es₀ r)
    (hrun : Run g r es s) (h : Compatible unit s) : Compatible unit r := by
  induction hrun with
  | start => exact h
  | step hbefore reads places ih =>
    exact ih (h.of_step (hr.trans hbefore).settled (advances_of_run reads places))

/-- A whole run is followed by a run. -/
theorem Follows.run (h : Follows f extra before unit r r') (hover : StartsOver extra)
    (hr : Run g (.opening g source filename firstLine) es₀ r)
    (hr' : Run g (.opening g source' filename' firstLine') es₀' r') (hrun : Run g r es s)
    (hcompatible : Compatible unit s) :
    ∃ es' s', Run g r' es' s' ∧ Follows f extra before unit s s' := by
  induction hrun with
  | start => exact ⟨[], r', .start, h⟩
  | @step es said r₁ r₂ r₃ hbefore reads places ih =>
    have hall := hr.trans hbefore
    have hadv := advances_of_run reads places
    obtain ⟨es', r₁', hrun', hfollows⟩ := ih (hcompatible.of_step hall.settled hadv)
    obtain ⟨said', r₂', r₃', reads', places', hnext⟩ := hfollows.step hover hall
      (hr'.trans hrun').settled reads places hcompatible
    exact ⟨es' ++ [said'], r₃', .step hrun' reads' places', hnext⟩

end Runs

end TemplateTree
