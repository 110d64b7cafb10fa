import TemplateTree.Production.Statement
import TemplateTree.Proofs.Attributes
import TemplateTree.Proofs.Blocks
import TemplateTree.Proofs.Scans.Groups

/-!
# Statements

A production for statements gives nothing and leaves the reading as it was, or it gives a sound
statement. When the statement owns raw lines, its block was read to the end.

Only the inline statement is read last of all, so it may move before it gives nothing. A comment
never comes from it there, because comments were looked for at the same place before.
-/

set_option autoImplicit false

namespace TemplateTree

/-- What a node keeps when it was read with a grammar. -/
def Node.SoundFor (g : Grammar) (n : Node) : Prop :=
  n.Everywhere (Node.Sound g.options.interpolateFilters.isTrue)

/-- A statement that was read, with its block when it owns one. -/
structure Node.ReadAs (g : Grammar) (n : Node) (r : Reading) : Prop where
  statement : n.IsStatement
  sound : n.SoundFor g
  ended : n.ownsRawLines → r.BlockEnded

namespace Node
variable {g : Grammar} {content : Node}

theorem SoundFor.tag {attributes : List Node} {flags : TagFlags} {content : Option Node}
    (hattributes : AreAttributes g.options.interpolateFilters.isTrue attributes)
    (hcontent : ∀ c ∈ content, c.SoundFor g) (hflags : flags.isSelfClosing → content = none)
    (name : Value) (p : Option Position) :
    (tag name attributes flags content [] p).SoundFor g := by
  refine .intro ⟨⟨fun hf => ⟨hflags hf, rfl⟩, fun _ => rfl, fun a ha => (hattributes a ha).1⟩,
    trivial⟩ ?_
  intro m hm
  simp only [subnodes, List.append_nil, List.mem_append, Option.mem_toList] at hm
  rcases hm with hm | hm
  · exact (hattributes m hm).2
  · exact hcontent m hm

/-- The text of a comment, which is left out when there is none. -/
theorem soundFor_commentText {text : List Char} {p : Position} {m : Node}
    (hm : m ∈ if text.isEmpty then none else some (Node.ofText text p)) : m.SoundFor g := by
  split at hm
  · simp at hm
  · rw [← Option.some.inj hm]
    exact sound_text _ _

theorem soundFor_rendered {text : List Char} {q : Position} {condition : Value}
    (h : condition.isNull = false → text = []) (p : Option Position) :
    (comment (.bool true) condition (if text.isEmpty then none else some (Node.ofText text q)) []
      p).SoundFor g := by
  refine .intro ⟨⟨fun _ _ => rfl, fun hc => ⟨rfl, by simp [h hc]⟩⟩, ?_⟩ ?_
  · exact fun hr => by simp [Value.isTrue] at hr
  · intro m hm
    simp only [subnodes, List.append_nil, Option.mem_toList] at hm
    exact soundFor_commentText hm

theorem soundFor_silent {text : List Char} {q : Position} {children : List Node}
    (h : ∀ c ∈ children, c.IsRawLine) (p : Option Position) :
    (comment (.bool false) .null (if text.isEmpty then none else some (Node.ofText text q)) children
      p).SoundFor g := by
  refine .intro ⟨⟨fun hr => by simp [Value.isTrue] at hr, fun hc => by simp [Value.isNull] at hc⟩,
    fun _ => h⟩ ?_
  intro m hm
  simp only [subnodes, List.mem_append, Option.mem_toList] at hm
  rcases hm with hm | hm
  · exact soundFor_commentText hm
  · obtain ⟨s, q, q', rfl⟩ := h m hm
    exact sound_statement (sound_text _ _) (Or.inr (Or.inr rfl)) _

end Node

namespace Production
open Node
variable {g : Grammar} {r : Reading} (h : r.cursor.Inside)

/-- What an optional statement is: nothing, or a node with a property. -/
def Found (r : Reading) (N : Prop) (P : Node → Reading → Prop) (n : Option Node) (r' : Reading) :
    Prop :=
  (n = none ∧ r' = r ∧ N) ∨ ∃ m, n = some m ∧ P m r'

omit h in
/-- What follows both ways of a choice follows the choice. -/
theorem reads_ite_bind {α β : Type} {b : Prop} [Decidable b] {p q : Production α}
    {f : α → Production β} {R : β → Reading → Prop} (hf : Reads ((if b then p else q) >>= f) r R) :
    Reads (if b then p >>= f else q >>= f) r R := by
  split at hf
  · rwa [if_pos ‹_›]
  · rwa [if_neg ‹_›]

/-- An inline statement is an insert or a string, or else a comment. -/
def IsInline (g : Grammar) (isComment : Prop) (n : Node) : Prop :=
  n.SoundFor g ∧ (n.kind = .insert ∨ n.kind = .interpolatedString ∨ isComment)

include h

theorem column_add_eq_length_iff {n : Nat} :
    (r.cursor.column + n == r.cursor.line.length) = true ↔ n = r.cursor.rest.length := by
  obtain ⟨k, hk, hle, hrest⟩ := Cursor.exists_rest h
  rw [beq_iff_eq, hk, hrest, List.length_drop]
  omega

/-- The condition of a comment is a group that takes the whole rest of the line. -/
theorem run_condition?_of_isGroup (hgroup : Scan.IsGroup r.cursor.rest) :
    condition?.run r = (.ok (some r.cursor.rest), r.skip r.cursor.rest.length) := by
  unfold condition?
  rw [run_cursor_bind, Scan.brackets_eq_length_iff.mpr hgroup]
  dsimp only
  rw [if_pos ((column_add_eq_length_iff h).mpr rfl), run_bind, run_advanceTo, List.take_length]
  rfl

theorem run_condition?_of_not_isGroup (hgroup : ¬ Scan.IsGroup r.cursor.rest) :
    condition?.run r = (.ok none, r) := by
  unfold condition?
  rw [run_cursor_bind]
  split
  · rfl
  · rename_i n hscan
    have hshort : n ≠ r.cursor.rest.length := by
      rintro rfl
      exact hgroup (Scan.brackets_eq_length_iff.mp hscan)
    rw [if_neg (mt (column_add_eq_length_iff h).mp hshort)]
    rfl

/-- A condition takes the whole rest of the line. -/
theorem reads_condition? : Reads condition? r fun cs r' =>
    (cs = none ∧ r' = r) ∨ cs.isSome ∧ r'.cursor.rest = [] := by
  unfold condition?
  rw [reads_cursor_bind]
  split
  · exact Reads.pure h (Or.inl ⟨rfl, rfl⟩)
  · split
    · rename_i n _ heq
      apply Reads.bind (reads_advanceTo h (by omega))
      intro _ r₁ hon hsame
      subst hsame
      refine Reads.pure hon.inside (Or.inr ⟨rfl, ?_⟩)
      rw [beq_iff_eq.mp heq, Cursor.rest]
      simp [Text.tail_natCast]
    · exact Reads.pure h (Or.inl ⟨rfl, rfl⟩)

/-- Only a rendered comment has a condition, and nothing else on its line. -/
theorem reads_commentCondition (g : Grammar) (rendered : Bool) :
    Reads (if rendered && allowsConditions g then condition? else pure none) r fun cs r' =>
      cs = none ∨ rendered ∧ r'.cursor.rest = [] := by
  split
  · rename_i hr
    apply (reads_condition? h).imp
    intro cs r₁ _ hq
    rcases hq with ⟨hcs, _⟩ | ⟨_, hrest⟩
    · exact Or.inl hcs
    · exact Or.inr ⟨(Bool.and_eq_true_iff.mp hr).1, hrest⟩
  · exact Reads.pure h (Or.inl rfl)

theorem reads_comment? (g : Grammar) : Reads (comment? g) r
    (Found r (g.dialect.comment r.cursor.rest = none) fun n r' =>
      n.kind = .comment ∧ n.SoundFor g ∧ (n.ownsRawLines → r'.BlockEnded) ∧
        g.dialect.comment r.cursor.rest ≠ none) := by
  unfold comment?
  rw [reads_cursor_bind, Cursor.inLine_eq h]
  apply Reads.bind (reads_eat? h _)
  intro _ r₁ hon₁ hq
  rcases hq with ⟨rfl, hp, rfl⟩ | ⟨m, rfl, hp, rfl⟩
  · exact Reads.pure h (Or.inl ⟨rfl, rfl, hp⟩)
  have hsome : g.dialect.comment r.cursor.rest ≠ none := by simp [hp]
  dsimp only
  refine reads_ite_bind (Reads.bind (reads_commentCondition hon₁.inside g _) ?_)
  intro condition r₂ hon₂ hcondition
  rw [reads_cursor_bind]
  apply Reads.bind (reads_restOfLine hon₂.inside)
  intro _ r₃ hon₃ hq
  obtain ⟨rfl, rfl⟩ := hq
  split
  · refine Reads.pure hon₃.inside (Or.inr ⟨_, rfl, rfl, ?_, by simp [ownsRawLines, Value.isTrue], hsome⟩)
    refine soundFor_rendered ?_ _
    intro hc
    rcases hcondition with rfl | ⟨_, hrest⟩
    · simp [Value.isNull] at hc
    · rw [hrest]
      rfl
  · rename_i hr
    obtain rfl : condition = none := by
      rcases hcondition with hc | ⟨hc, _⟩
      · exact hc
      · exact absurd hc hr
    apply Reads.bind (reads_rawLines hon₃.inside)
    intro children r₄ hon₄ hq
    obtain ⟨hchildren, hended⟩ := hq
    apply Reads.bind (reads_record hon₄.inside)
    intro _ r₅ hon₅ heq
    subst heq
    exact Reads.pure hon₅.inside
      (Or.inr ⟨_, rfl, rfl, soundFor_silent hchildren _, fun _ => hended, hsome⟩)

omit h in
theorem reads_bareString (h : r.cursor.Inside) (g : Grammar) :
    Reads (interpolatedString .bare) r fun n _ => ∀ e, n.SoundFor g ∧
      n.kind = .interpolatedString ∧ (n.withEscaping e).SoundFor g ∧
        (n.withEscaping e).kind = .interpolatedString := by
  apply (reads_interpolatedString h .bare).imp
  rintro _ r₁ _ ⟨⟨parts, p, rfl, hparts⟩, _⟩ e
  exact ⟨sound_interpolatedString hparts _ _, rfl, sound_interpolatedString hparts _ _, rfl⟩

theorem reads_escaped {n : Node} {e : Escaping} {N : Prop} (hn : (n.withEscaping e).SoundFor g)
    (hk : (n.withEscaping e).kind = .insert ∨ (n.withEscaping e).kind = .interpolatedString) :
    Reads (do
      skipIndent
      return some (n.withEscaping e)) r fun n _ => ∀ m ∈ n, IsInline g N m := by
  apply Reads.bind (reads_skipIndent h)
  intro _ r₁ hon₁ _
  apply Reads.pure hon₁.inside
  intro _ hm
  obtain rfl := Option.some.inj hm
  exact ⟨hn, hk.imp_right Or.inl⟩

theorem reads_plainLine (g : Grammar) (N : Prop) : Reads (do
    if Text.isBlankLine (← cursor).rest then return none
    return some (← interpolatedString .bare)) r fun n _ => ∀ m ∈ n, IsInline g N m := by
  rw [reads_cursor_bind]
  split
  · exact Reads.pure h (by simp)
  · apply Reads.bind (reads_bareString h g)
    intro n r₁ hon₁ hn
    apply Reads.pure hon₁.inside
    intro _ hm
    obtain rfl := Option.some.inj hm
    exact ⟨(hn .inherit).1, Or.inr (Or.inl (hn .inherit).2.1)⟩

theorem reads_inline? (g : Grammar) : Reads (inline? g) r fun n _ =>
    ∀ m ∈ n, IsInline g (g.dialect.comment r.cursor.rest ≠ none) m := by
  unfold inline?
  rw [reads_cursor_bind, Cursor.inLine_eq h]
  apply Reads.bind (reads_eat? h _)
  intro _ r₁ hon₁ hq
  rcases hq with ⟨rfl, _, rfl⟩ | ⟨m, rfl, _, rfl⟩
  · apply Reads.bind (reads_comment? h g)
    intro _ r₂ hon₂ hq
    rcases hq with ⟨rfl, rfl, _⟩ | ⟨n, rfl, _, hn, _, hsome⟩
    · dsimp only
      rw [reads_peekChar_bind h]
      split
      · apply Reads.bind (reads_modifyCursor (Cursor.onward_skip h 1))
        exact fun _ r₃ hon₃ _ => reads_plainLine hon₃.inside g _
      · exact reads_plainLine h g _
    · apply Reads.pure hon₂.inside
      intro _ hm
      obtain rfl := Option.some.inj hm
      exact ⟨hn, Or.inr (Or.inr hsome)⟩
  · dsimp only
    split
    · apply Reads.bind (reads_bareString hon₁.inside g)
      exact fun n r₂ hon₂ hn => reads_escaped hon₂.inside (hn _).2.2.1 (Or.inr (hn _).2.2.2)
    · apply Reads.bind (reads_restOfLine hon₁.inside)
      intro _ r₂ hon₂ hq
      obtain ⟨rfl, _⟩ := hq
      exact reads_escaped hon₂.inside (sound_insert _ _ _ _) (Or.inl rfl)

theorem reads_run? (g : Grammar) : Reads run? r (Found r True (Node.ReadAs g)) := by
  unfold run?
  rw [reads_cursor_bind, Cursor.inLine_eq h]
  apply Reads.bind (reads_eat? h _)
  intro _ r₁ hon₁ hq
  rcases hq with ⟨rfl, _, rfl⟩ | ⟨m, rfl, _, rfl⟩
  · exact Reads.pure h (Or.inl ⟨rfl, rfl, trivial⟩)
  · apply Reads.bind (reads_skipIndent hon₁.inside)
    intro _ r₂ hon₂ heq
    subst heq
    apply Reads.bind (reads_restOfLine hon₂.inside)
    intro _ r₃ hon₃ hq
    obtain ⟨rfl, rfl⟩ := hq
    refine Reads.pure hon₃.inside (Or.inr ⟨_, rfl, ?_, .leaf ⟨trivial, trivial⟩ rfl, ?_⟩)
    · simp [IsStatement, kind]
    · simp [ownsRawLines]

theorem reads_tagFlags (d : Dialect) : Reads (tagFlags d) r fun _ _ => True := by
  apply reads_repeatWhile h (fun _ _ => True) trivial
  intro flags r₁ hon₁ _
  unfold nextFlag
  rw [reads_peekChar_bind hon₁.inside]
  split
  · exact Reads.pure hon₁.inside trivial
  · rename_i flag hflag
    have hne : r₁.cursor.rest ≠ [] := by
      intro hr
      simp [hr] at hflag
    apply Reads.bind (reads_modifyCursor (Cursor.onward_skip hon₁.inside 1))
    intro _ r₂ hon₂ heq
    subst heq
    apply Reads.pure hon₂.inside
    split
    · exact ⟨trivial, Cursor.remaining_skip_lt hon₁.inside Nat.one_pos hne⟩
    · trivial

theorem reads_tag? (g : Grammar) : Reads (tag? g) r (Found r True (Node.ReadAs g)) := by
  have tagged : ∀ {n : Node} {name attributes flags content p} {r' : Reading},
      n = .tag name attributes flags content [] p → n.SoundFor g → n.ReadAs g r' := by
    intro _ _ _ _ _ _ _ rfl hn
    exact ⟨Or.inl rfl, hn, by simp [ownsRawLines]⟩
  unfold tag?
  rw [reads_cursor_bind, Cursor.inLine_eq h]
  apply Reads.bind (reads_eat? h _)
  intro _ r₁ hon₁ hq
  rcases hq with ⟨rfl, _, rfl⟩ | ⟨m, rfl, _, rfl⟩
  · exact Reads.pure h (Or.inl ⟨rfl, rfl, trivial⟩)
  · apply Reads.bind (reads_tagAttributes (i := g.options.interpolateFilters.isTrue) hon₁.inside)
    intro attributes r₂ hon₂ hattributes
    apply Reads.bind (reads_tagFlags hon₂.inside _)
    intro flags r₃ hon₃ _
    rw [reads_cursor_bind]
    apply Reads.bind (reads_skipIndent hon₃.inside)
    intro _ r₄ hon₄ heq
    subst heq
    apply Reads.bind (reads_inline? hon₄.inside g)
    intro content r₅ hon₅ hcontent
    cases content with
    | none =>
      refine Reads.pure hon₅.inside (Or.inr ⟨_, rfl, tagged rfl ?_⟩)
      exact SoundFor.tag hattributes (by simp) (fun _ => rfl) _ _
    | some content =>
      dsimp only
      split
      · rw [reads_cursor_bind]
        exact Reads.bind (reads_refuse (Q := fun _ _ => False) hon₅.inside) fun _ _ _ hf => hf.elim
      · rename_i hself
        refine Reads.pure hon₅.inside (Or.inr ⟨_, rfl, tagged rfl ?_⟩)
        exact SoundFor.tag hattributes (fun c hc => (hcontent c hc).1) (fun hs => absurd hs hself) _ _

theorem reads_doctype? (g : Grammar) (d : Dialect) :
    Reads (doctype? d) r (Found r True (Node.ReadAs g)) := by
  unfold doctype?
  rw [reads_cursor_bind, Cursor.inLine_eq h]
  apply Reads.bind (reads_eat? h _)
  intro _ r₁ hon₁ hq
  rcases hq with ⟨rfl, _, rfl⟩ | ⟨m, rfl, _, rfl⟩
  · exact Reads.pure h (Or.inl ⟨rfl, rfl, trivial⟩)
  · refine Reads.pure hon₁.inside (Or.inr ⟨_, rfl, ?_, .leaf ⟨trivial, trivial⟩ rfl, ?_⟩)
    · simp [IsStatement, kind]
    · simp [ownsRawLines]

omit h in
theorem readAs_statement {n : Node} {r' : Reading} (hn : n.SoundFor g)
    (hk : n.kind = .insert ∨ n.kind = .interpolatedString) (p : Option Position) :
    (Node.statement n p).ReadAs g r' where
  statement := by simp [IsStatement, kind]
  sound := sound_statement hn (hk.imp_right Or.inl) p
  ended := by simp [ownsRawLines]

/-- A line of text becomes a statement that wraps its string. -/
theorem reads_textLine (g : Grammar) (wrapped : Node → Node)
    (hw : ∀ n, ∃ p, wrapped n = .statement n p) :
    Reads (do return some (wrapped (← interpolatedString .bare))) r fun n r' =>
      ∃ m, n = some m ∧ m.ReadAs g r' := by
  apply Reads.bind (reads_bareString h g)
  intro n r₁ hon₁ hn
  obtain ⟨p, hp⟩ := hw n
  refine Reads.pure hon₁.inside ⟨_, rfl, ?_⟩
  rw [hp]
  exact readAs_statement (hn .inherit).1 (Or.inr (hn .inherit).2.1) p

theorem reads_literalLine? (g : Grammar) :
    Reads (literalLine? g) r (Found r True (ReadAs g)) := by
  have markup : Reads (do
      if ← eat .markup then return some (← interpolatedString .bare).wrap
      return none) r (Found r True (ReadAs g)) := by
    apply Reads.bind (reads_eat h _)
    intro _ r₁ hon₁ hq
    rcases hq with ⟨rfl, _, rfl⟩ | ⟨m, rfl, _, rfl⟩
    · exact Reads.pure h (Or.inl ⟨rfl, rfl, trivial⟩)
    · exact (reads_textLine hon₁.inside g wrap fun n => ⟨_, rfl⟩).imp fun _ _ _ => Or.inr
  unfold literalLine?
  rw [reads_cursor_bind, Cursor.inLine_eq h]
  split
  · apply Reads.bind (reads_eat h _)
    intro _ r₁ hon₁ hq
    rcases hq with ⟨rfl, _, rfl⟩ | ⟨m, rfl, _, rfl⟩
    · exact markup
    · exact (reads_textLine hon₁.inside g (statement · r.cursor.position) fun n => ⟨_, rfl⟩).imp
        fun _ _ _ => Or.inr
  · exact markup

theorem reads_extra? (g : Grammar) : Reads (extra? g) r (Found r True (ReadAs g)) := by
  unfold extra?
  split
  · exact Reads.pure h (Or.inl ⟨rfl, rfl, trivial⟩)
  · apply Reads.bind (reads_doctype? h g .jade)
    intro _ r₁ hon₁ hq
    rcases hq with ⟨rfl, rfl, _⟩ | ⟨n, rfl, hn⟩
    · exact reads_literalLine? h g
    · exact Reads.pure hon₁.inside (Or.inr ⟨n, rfl, hn⟩)

/-- One production of several, and the others where it finds nothing. -/
theorem reads_firstOf_cons {p : Production (Option Node)} {ps : List (Production (Option Node))}
    {N : Prop} {P : Node → Reading → Prop} {Q : Option Node → Reading → Prop}
    (hp : Reads p r (Found r N P)) (hn : N → Reads (firstOf ps) r Q)
    (hq : ∀ n r', P n r' → Q (some n) r') : Reads (firstOf (p :: ps)) r Q := by
  apply Reads.bind hp
  intro _ r₁ hon₁ hfound
  rcases hfound with ⟨rfl, rfl, hN⟩ | ⟨n, rfl, hn'⟩
  · exact hn hN
  · exact Reads.pure hon₁.inside (hq n r₁ hn')

theorem reads_filterStatement (g : Grammar) :
    Reads (filter? g) r (Found r True (ReadAs g)) := by
  apply (reads_filter? h g).imp
  intro _ r₁ _ hq
  rcases hq with ⟨rfl, rfl⟩ | ⟨name, children, p, rfl, hn, hended⟩
  · exact Or.inl ⟨rfl, rfl, trivial⟩
  · exact Or.inr ⟨_, rfl, Or.inr (Or.inl rfl), hn, fun _ => hended⟩

theorem reads_commentStatement (g : Grammar) : Reads (comment? g) r
    (Found r (g.dialect.comment r.cursor.rest = none) (ReadAs g)) := by
  apply (reads_comment? h g).imp
  intro _ r₁ _ hq
  rcases hq with ⟨rfl, rfl, hN⟩ | ⟨n, rfl, hk, hn, hended, _⟩
  · exact Or.inl ⟨rfl, rfl, hN⟩
  · exact Or.inr ⟨_, rfl, Or.inr (Or.inr (Or.inl hk)), hn, hended⟩

/-- Where no comment starts, what may follow a tag is wrapped as a statement. -/
theorem reads_inlineStatement (g : Grammar) (hcomment : g.dialect.comment r.cursor.rest = none) :
    Reads (do return (← inline? g).map wrap) r fun n r' => ∀ m ∈ n, m.ReadAs g r' := by
  apply Reads.bind (reads_inline? h g)
  intro n r₁ hon₁ hn
  apply Reads.pure hon₁.inside
  intro m hm
  obtain ⟨content, hcontent, rfl⟩ := Option.map_eq_some_iff.mp hm
  obtain ⟨hsound, hk⟩ := hn content hcontent
  apply readAs_statement hsound
  rcases hk with hk | hk | hk
  · exact Or.inl hk
  · exact Or.inr hk
  · exact absurd hcomment hk

/-- A statement that is read keeps the rules of nodes, and its block is read with it. -/
theorem reads_statement? (g : Grammar) :
    Reads (statement? g) r fun n r' => ∀ m ∈ n, m.ReadAs g r' := by
  have found : ∀ (n : Node) r', n.ReadAs g r' → ∀ m ∈ some n, m.ReadAs g r' := by
    intro n r' hn _ hm
    rwa [← Option.some.inj hm]
  unfold statement?
  refine reads_firstOf_cons h (reads_extra? h g) (fun _ => ?_) found
  refine reads_firstOf_cons h (reads_tag? h g) (fun _ => ?_) found
  refine reads_firstOf_cons h (reads_filterStatement h g) (fun _ => ?_) found
  refine reads_firstOf_cons h (reads_commentStatement h g) (fun hcomment => ?_) found
  refine reads_firstOf_cons h (reads_run? h g) (fun _ => ?_) found
  refine reads_firstOf_cons h (reads_doctype? h g _) (fun _ => ?_) found
  apply Reads.bind (reads_inlineStatement h g hcomment)
  intro n r₁ hon₁ hn
  cases n with
  | none => exact Reads.pure hon₁.inside hn
  | some n => exact Reads.pure hon₁.inside hn

end Production

end TemplateTree
