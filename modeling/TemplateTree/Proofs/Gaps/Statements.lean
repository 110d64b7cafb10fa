import TemplateTree.Proofs.Gaps.Attributes
import TemplateTree.Proofs.Gaps.Blocks

/-!
# Statements before a gap of blank lines

A statement that ends before the gap, or whose silent comment ends at the gap, reads the same in both
sources. A filter must end before the gap, because it keeps the blank lines of its block.
-/

set_option autoImplicit false

namespace TemplateTree

open Node Production Comparison

/-- Where something was found, the gap is not passed. -/
def Stays {α : Type} (tail : List (List Char)) (found : Option α) (s : Reading) : Prop :=
  found.isSome → s.Before tail

/-- Where a statement was found, the gap is not passed, and the block of a filter does not reach it. -/
def Fits (tail : List (List Char)) (n : Option Node) (s : Reading) : Prop :=
  ∀ m ∈ n, s.Before tail ∧ (m.kind = .filter → tail.length < s.cursor.upcoming.length)

theorem Fits.stays {tail : List (List Char)} {n : Option Node} {s : Reading} (h : Fits tail n s) :
    Stays tail n s := by
  intro hn
  obtain ⟨m, rfl⟩ := Option.isSome_iff_exists.mp hn
  exact (h m rfl).1

/-- Both readings find nothing and stay where they are, or they find the same. -/
def FindsSame (tail : List (List Char)) (r r' : Reading) (n n' : Option Node) (s s' : Reading) :
    Prop :=
  (n = none ∧ n' = none ∧ s = r ∧ s' = r') ∨
    ∃ m m', n = some m ∧ n' = some m' ∧ m.lineless = m'.lineless ∧ Lags tail s s'

/-- Both readings find nothing, or they find the same. -/
def SaysSame (tail : List (List Char)) (n n' : Option Node) (s s' : Reading) : Prop :=
  n.map Node.lineless = n'.map Node.lineless ∧ Lags tail s s'

namespace Node
variable {ns ns' ms ms' : List Node} {content content' : Option Node} {p p' : Option Position}

theorem lineless_comment (rendered condition : Value)
    (hcontent : content.map lineless = content'.map lineless) (hchildren : SameColumns ns ns')
    (hp : p.map Position.columnOnly = p'.map Position.columnOnly) :
    (comment rendered condition content ns p).lineless =
      (comment rendered condition content' ns' p').lineless := by
  unfold SameColumns lineless at *
  simp only [relocate, relocateAll_eq_map, relocateOptional_eq_map, hcontent, hchildren, hp]

theorem lineless_tag (name : Value) (flags : TagFlags) (hattributes : SameColumns ns ns')
    (hcontent : content.map lineless = content'.map lineless)
    (hp : p.map Position.columnOnly = p'.map Position.columnOnly) :
    (tag name ns flags content [] p).lineless = (tag name ns' flags content' [] p').lineless := by
  unfold SameColumns lineless at *
  simp only [relocate, relocateAll_eq_map, relocateOptional_eq_map, hcontent, hattributes, hp]

theorem lineless_filter (name : Value) (hchildren : SameColumns ns ns')
    (hp : p.map Position.columnOnly = p'.map Position.columnOnly) :
    (filter name ns p).lineless = (filter name ns' p').lineless := by
  unfold SameColumns lineless at *
  simp only [relocate, relocateAll_eq_map, hchildren, hp]

theorem lineless_insert (code : Value) (e : Escaping) (preserve : Value)
    (hp : p.map Position.columnOnly = p'.map Position.columnOnly) :
    (insert code e preserve p).lineless = (insert code e preserve p').lineless := by
  unfold lineless
  simp only [relocate, hp]

theorem lineless_withEscaping {n n' : Node} (h : n.lineless = n'.lineless) (e : Escaping) :
    (n.withEscaping e).lineless = (n'.withEscaping e).lineless := by
  unfold lineless at *
  rw [withEscaping_relocate, withEscaping_relocate, h]

theorem lineless_wrap {n n' : Node} (h : n.lineless = n'.lineless) :
    n.wrap.lineless = n'.wrap.lineless := by
  have hp := congrArg position h
  unfold lineless at *
  rw [position_relocate, position_relocate] at hp
  simp only [wrap, relocate, h, hp]

/-- The text that a comment may have on its line. -/
theorem lineless_commentText (text : List Char) {p p' : Position}
    (hp : p.columnOnly = p'.columnOnly) :
    (if text.isEmpty then none else some (ofText text p)).map lineless =
      (if text.isEmpty then none else some (ofText text p')).map lineless := by
  split
  · rfl
  · simp only [Option.map_some, lineless, ofText, relocate, hp]

end Node

theorem Carries.ite_bind {α β : Type} {left : β → Reading → Prop} {b : Prop} [Decidable b]
    {p p' q q' : Production α} {f f' : α → Production β} {r r' : Reading}
    {R : β → β → Reading → Reading → Prop}
    (h : Carries left ((if b then p else q) >>= f) ((if b then p' else q') >>= f') r r' R) :
    Carries left (if b then p >>= f else q >>= f) (if b then p' >>= f' else q' >>= f') r r' R := by
  by_cases hb : b
  · simpa only [if_pos hb] using h
  · simpa only [if_neg hb] using h

variable {tail blanks : List (List Char)} {c : Cursor} {r r' : Reading}

theorem Lags.log (h : Lags tail r r') (log log' : List LogRecord) :
    Lags tail { r with log } { r' with log := log' } :=
  ⟨h.filename, h.indent, h.ahead⟩

/-- What is recorded last is no matter of the gap. -/
theorem carries_record_pure {α : Type} {kept : α → Reading → Prop} {a a' : α}
    {Q : α → α → Reading → Reading → Prop} {entry entry' : LogRecord}
    (hq : ∀ log log', Q a a' { r with log } { r' with log := log' }) :
    Carries kept
      (do
        record entry
        return a)
      (do
        record entry'
        return a') r r' Q := by
  intro b s hrun _
  obtain ⟨hvalue, rfl⟩ := Prod.mk.inj hrun
  obtain rfl := Except.ok.inj hvalue
  exact ⟨a', _, rfl, hq _ _⟩

/-- What was found at last was found by the first production, where that found anything. -/
theorem kept_of_found {kept : Option Node → Reading → Prop} {p : Production (Option Node)}
    {n m : Option Node} {s : Reading} (hnone : kept none r)
    (hrun : (match n with
      | some node => return some node
      | none => p : Production (Option Node)).run r = (.ok m, s)) (hm : kept m s) : kept n r := by
  cases n with
  | none => exact hnone
  | some node =>
    obtain ⟨rfl, rfl⟩ := of_run_pure hrun
    exact hm

theorem of_record_pure {α : Type} {entry : LogRecord} {a b : α} {s : Reading}
    (hrun : (do record entry; return a : Production α).run r = (.ok b, s)) :
    b = a ∧ s.cursor = r.cursor := by
  obtain ⟨hvalue, rfl⟩ := Prod.mk.inj hrun
  exact ⟨(Except.ok.inj hvalue).symm, rfl⟩

theorem lineless_of_pairInline {extra : List (List Char)} {s : Reading} {n n' : Option Node}
    (hn : PairInline (sight extra r s) n n') : n.map lineless = n'.map lineless := by
  rcases hn with ⟨rfl, rfl⟩ | ⟨m, m', rfl, rfl, hm⟩
  · rfl
  · exact congrArg some hm.pair.same

theorem Split.columnOnly_position {tail' : List (List Char)} (h : Split tail tail' c r r') :
    r.cursor.position.columnOnly = r'.cursor.position.columnOnly := by
  rw [Cursor.position, Cursor.position, h.column]
  exact h.columnOnly_positionAt _

namespace Split
variable (h : Split tail (blanks ++ tail) c r r')
include h

/-- What is found on the line alone is the same. -/
theorem findsSame {p : Production (Option Node)} {P : Node → Prop}
    (hblanks : ∀ line ∈ blanks, Text.isBlankLine line) (kept : Option Node → Reading → Prop)
    (hp : ∀ (extra : List (List Char)) (s : Reading), s.indent = r.indent →
      (sight extra r s).Alike { r with cursor := c } s →
      (sight extra r s).Agree False p p { r with cursor := c } s
        ((sight extra r s).Finds { r with cursor := c } s P)) :
    Carries kept p p r r' (FindsSame tail r r') := by
  intro n s hrun _
  obtain ⟨n₀, s₀, n', s', hrun', hn, hn', hs⟩ := h.through
    (Q := fun extra q => (sight extra r q).Finds { r with cursor := c } q P) hp hrun
  refine ⟨n', s', hrun', ?_⟩
  rcases hn with ⟨rfl, rfl, -, rfl⟩ | ⟨m₀, m, rfl, rfl, hm, -⟩
  · rcases hn' with ⟨-, rfl, -, rfl⟩ | ⟨_, _, hsome, _⟩
    · exact Or.inl ⟨rfl, rfl, rfl, rfl⟩
    · cases hsome
  · rcases hn' with ⟨hnone, _⟩ | ⟨m₁, m', hsome, rfl, hm', -⟩
    · cases hnone
    obtain rfl := Option.some.inj hsome
    exact Or.inr ⟨m, m', rfl, rfl, hm.same.symm.trans hm'.same, hs.lags hblanks⟩

theorem carries_comment? (hblanks : ∀ line ∈ blanks, Text.isBlankLine line) (g : Grammar) :
    Carries (Stays tail) (comment? g) (comment? g) r r' (FindsSame tail r r') := by
  unfold comment?
  rw [carries_cursor_bind, Cursor.inLine_eq h.inside, Cursor.inLine_eq h.inside']
  apply h.carries_eat?_bind
  · exact fun _ => Carries.pure fun _ => Or.inl ⟨rfl, rfl, rfl, rfl⟩
  intro m hm
  dsimp only
  refine Carries.ite_bind ((h.skip m.length).carries_bind id
    (fun _ _ _ hs => (agree_commentCondition hs g _).imp fun _ _ _ _ _ hcs => hcs.1.symm) ?_)
  intro condition condition' d s s' hs hcondition
  obtain rfl : condition = condition' := hcondition
  rw [carries_cursor_bind]
  apply hs.carries_bind id fun _ _ _ ht =>
    (agree_restOfLine ht).imp fun _ _ _ _ _ htext => htext.1.trans htext.2.symm
  intro text text' e t t' ht htext
  obtain rfl : text = text' := htext
  have hcontent := lineless_commentText (Text.trim text) hs.columnOnly_position
  have hposition := congrArg some h.columnOnly_position
  split
  · refine Carries.pure fun _ => Or.inr ⟨_, _, rfl, rfl, ?_, Apart.lags ⟨e, ht⟩ hblanks⟩
    exact lineless_comment _ _ hcontent rfl hposition
  · refine Carries.bind (ht.carries_rawLines hblanks) ?_ ?_
    · intro children u n v _ hrun hn
      obtain ⟨rfl, hcursor⟩ := of_record_pure hrun
      have hv : v.Before tail := hn rfl
      rwa [Reading.Before, hcursor] at hv
    · rintro children children' u u' ⟨hchildren, hu⟩
      apply carries_record_pure
      intro log log'
      refine Or.inr ⟨_, _, rfl, rfl, ?_, hu.log log log'⟩
      exact lineless_comment _ _ hcontent hchildren hposition

theorem carries_filter? (hblanks : ∀ line ∈ blanks, Text.isBlankLine line) (g : Grammar) :
    Carries (Fits tail) (filter? g) (filter? g) r r' (FindsSame tail r r') := by
  unfold filter?
  rw [carries_cursor_bind, Cursor.inLine_eq h.inside, Cursor.inLine_eq h.inside']
  apply h.carries_eat?_bind
  · exact fun _ => Carries.pure fun _ => Or.inl ⟨rfl, rfl, rfl, rfl⟩
  intro m _
  dsimp only
  refine Carries.bind ((h.skip m.length).carries_filterBlock g) ?_ ?_
  · intro children s n u _ hrun hn
    obtain ⟨rfl, hcursor⟩ := of_record_pure hrun
    obtain ⟨-, hlong⟩ := hn _ rfl
    rw [← hcursor]
    exact hlong rfl
  · rintro children children' s s' ⟨hchildren, hs⟩
    apply carries_record_pure
    intro log log'
    refine Or.inr ⟨_, _, rfl, rfl, ?_, (hs.lags hblanks).log log log'⟩
    exact lineless_filter _ hchildren (congrArg some h.columnOnly_position)

theorem carries_inline? (hblanks : ∀ line ∈ blanks, Text.isBlankLine line) (g : Grammar) :
    Carries (Stays tail) (inline? g) (inline? g) r r' (SaysSame tail) := by
  have hplain : ∀ {d : Cursor} {s s' : Reading}, Split tail (blanks ++ tail) d s s' →
      Carries (Stays tail)
        (do
          if Text.isBlankLine (← cursor).rest then return none
          return some (← interpolatedString .bare))
        (do
          if Text.isBlankLine (← cursor).rest then return none
          return some (← interpolatedString .bare)) s s' (SaysSame tail) := by
    intro d s s' hs
    refine Carries.imp (hs.carries (Option.map lineless) fun _ _ _ ht =>
      (agree_plainLine ht).imp fun _ _ _ _ _ hn => lineless_of_pairInline hn) (fun _ _ h => h) ?_
    exact fun n n' t t' ht => ⟨ht.1, ht.2.lags hblanks⟩
  unfold inline?
  rw [carries_cursor_bind, Cursor.inLine_eq h.inside, Cursor.inLine_eq h.inside']
  apply h.carries_eat?_bind
  · intro _
    refine Carries.bind (h.carries_comment? hblanks g) ?_ ?_
    · exact fun _ _ _ _ _ hrun hn => kept_of_found (fun hsome => nomatch hsome) hrun hn
    · rintro n n' s s' (⟨rfl, rfl, rfl, rfl⟩ | ⟨node, node', rfl, rfl, hnode, hs⟩)
      · dsimp only
        rw [h.carries_peekChar_bind]
        split
        · rw [carries_modifyCursor_bind]
          exact hplain (h.skip 1)
        · exact hplain h
      · exact Carries.pure fun _ => ⟨congrArg some hnode, hs⟩
  · intro m _
    dsimp only
    split
    · apply (h.skip m.length).carries_bind lineless fun _ _ _ hs =>
        (agree_interpolatedString hs .bare).imp fun _ _ _ _ _ hn => hn.1.same
      intro n n' d s s' hs hn
      apply hs.carries_skipIndent_bind
      intro t t' ht
      refine Carries.pure fun _ => ⟨congrArg some ?_, Apart.lags ⟨_, ht⟩ hblanks⟩
      exact lineless_withEscaping hn _
    · apply (h.skip m.length).carries_bind id fun _ _ _ hs =>
        (agree_restOfLine hs).imp fun _ _ _ _ _ htext => htext.1.trans htext.2.symm
      intro text text' d s s' hs htext
      obtain rfl : text = text' := htext
      rw [pure_bind, pure_bind]
      have hposition : (some r.cursor.position).map Position.columnOnly =
          (some r'.cursor.position).map Position.columnOnly := congrArg some h.columnOnly_position
      apply hs.carries_skipIndent_bind
      intro t t' ht
      refine Carries.pure fun _ => ⟨congrArg some ?_, Apart.lags ⟨_, ht⟩ hblanks⟩
      exact lineless_withEscaping (lineless_insert _ _ _ hposition) _

/-- The text that a tag may have on its line, after which the tag is made. -/
theorem carries_tagContent (hblanks : ∀ line ∈ blanks, Text.isBlankLine line) (g : Grammar)
    {flags : TagFlags} {make make' : Option Node → Node} {q q' : Reading}
    (hmake : ∀ {content content' : Option Node}, content.map lineless = content'.map lineless →
      (make content).lineless = (make' content').lineless) :
    Carries (Stays tail)
      (do
        match ← inline? g with
        | none => return some (make none)
        | some content =>
          if flags.isSelfClosing then refuse ((← cursor).error .selfClosing)
          return some (make (some content)))
      (do
        match ← inline? g with
        | none => return some (make' none)
        | some content =>
          if flags.isSelfClosing then refuse ((← cursor).error .selfClosing)
          return some (make' (some content))) r r' (FindsSame tail q q') := by
  refine Carries.bind (h.carries_inline? hblanks g) ?_ ?_
  · intro content s n t _ hrun hn
    cases content with
    | none => exact fun hsome => nomatch hsome
    | some content =>
      dsimp only at hrun
      split at hrun
      · cases (Prod.mk.inj hrun).1
      · obtain ⟨rfl, rfl⟩ := of_run_pure hrun
        exact hn
  · rintro content content' s s' ⟨hcontent, hs⟩
    cases content with
    | none =>
      obtain rfl := Option.map_eq_none_iff.mp hcontent.symm
      exact Carries.pure fun _ => Or.inr ⟨_, _, rfl, rfl, hmake rfl, hs⟩
    | some content =>
      obtain ⟨content', rfl, -⟩ := Option.map_eq_some_iff.mp hcontent.symm
      dsimp only
      split
      · exact Carries.of_error rfl
      · exact Carries.pure fun _ => Or.inr ⟨_, _, rfl, rfl, hmake hcontent, hs⟩

theorem carries_tag? (hblanks : ∀ line ∈ blanks, Text.isBlankLine line) (g : Grammar) :
    Carries (Stays tail) (tag? g) (tag? g) r r' (FindsSame tail r r') := by
  unfold tag?
  rw [carries_cursor_bind, Cursor.inLine_eq h.inside, Cursor.inLine_eq h.inside']
  apply h.carries_eat?_bind
  · exact fun _ => Carries.pure fun _ => Or.inl ⟨rfl, rfl, rfl, rfl⟩
  intro m _
  refine Carries.bind_before (h.skip m.length).carries_tagAttributes
    (reads_tagAttributes (i := true) (h.skip m.length).inside) ?_ ?_
  · intro attributes s hs _
    apply Reads.bind (reads_tagFlags hs.inside _)
    intro flags t ht _
    rw [reads_cursor_bind]
    apply Reads.bind (reads_skipIndent ht.inside)
    intro _ u hu _
    apply Reads.bind (reads_inline? hu.inside g)
    intro content v hv _
    cases content with
    | none => exact Reads.pure hv.inside fun hn => hn rfl
    | some content =>
      dsimp only
      split
      · rw [reads_cursor_bind]
        exact Reads.bind (reads_refuse (Q := fun _ _ => False) hv.inside) fun _ _ _ hf => hf.elim
      · exact Reads.pure hv.inside fun hn => hn rfl
  rintro attributes attributes' s s' ⟨hattributes, d, hs⟩
  apply hs.carries_bind id fun _ _ _ ht =>
    (agree_tagFlags ht g.dialect).imp fun _ _ _ _ _ hflags => hflags.symm
  intro flags flags' e t t' ht hflags
  obtain rfl : flags = flags' := hflags
  rw [carries_cursor_bind]
  have hposition : (some (t.cursor.positionAt r.cursor.column)).map Position.columnOnly =
      (some (t'.cursor.positionAt r'.cursor.column)).map Position.columnOnly := by
    rw [h.column]
    exact congrArg some (ht.columnOnly_positionAt _)
  apply ht.carries_skipIndent_bind
  intro u u' hu
  exact hu.carries_tagContent hblanks g fun hcontent => lineless_tag _ _ hattributes hcontent hposition

omit h in
/-- One production of several, and the others where it finds nothing. -/
theorem carries_firstOf_cons {p : Production (Option Node)} {ps : List (Production (Option Node))}
    (hp : Carries (Fits tail) p p r r' (FindsSame tail r r'))
    (hps : Carries (Fits tail) (firstOf ps) (firstOf ps) r r' (SaysSame tail)) :
    Carries (Fits tail) (firstOf (p :: ps)) (firstOf (p :: ps)) r r' (SaysSame tail) := by
  refine Carries.bind hp ?_ ?_
  · exact fun _ _ _ _ _ hrun hn => kept_of_found (fun _ hm => nomatch hm) hrun hn
  · rintro n n' s s' (⟨rfl, rfl, rfl, rfl⟩ | ⟨node, node', rfl, rfl, hnode, hs⟩)
    · exact hps
    · exact Carries.pure fun _ => ⟨congrArg some hnode, hs⟩

theorem carries_inlineStatement (hblanks : ∀ line ∈ blanks, Text.isBlankLine line) (g : Grammar) :
    Carries (Fits tail) (do return (← inline? g).map wrap) (do return (← inline? g).map wrap) r r'
      (SaysSame tail) := by
  refine (h.carries_inline? hblanks g).bind_pure ?_ ?_
  · intro n s hn hsome
    obtain ⟨node, rfl⟩ := Option.isSome_iff_exists.mp hsome
    exact (hn _ rfl).1
  · rintro n n' s s' ⟨hn, hs⟩
    refine ⟨?_, hs⟩
    cases n with
    | none =>
      obtain rfl := Option.map_eq_none_iff.mp hn.symm
      rfl
    | some node =>
      obtain ⟨node', rfl, hnode⟩ := Option.map_eq_some_iff.mp hn.symm
      exact congrArg some (lineless_wrap hnode.symm)

theorem carries_statement? (hblanks : ∀ line ∈ blanks, Text.isBlankLine line) (g : Grammar) :
    Carries (Fits tail) (statement? g) (statement? g) r r' (SaysSame tail) := by
  unfold statement?
  apply carries_firstOf_cons
  · exact h.findsSame hblanks _ fun _ _ _ hs => agree_extra? hs g
  apply carries_firstOf_cons
  · exact (h.carries_tag? hblanks g).imp (fun _ _ hn => hn.stays) fun _ _ _ _ hn => hn
  apply carries_firstOf_cons
  · exact h.carries_filter? hblanks g
  apply carries_firstOf_cons
  · exact (h.carries_comment? hblanks g).imp (fun _ _ hn => hn.stays) fun _ _ _ _ hn => hn
  apply carries_firstOf_cons
  · exact h.findsSame hblanks _ fun _ _ _ hs => agree_run? hs
  apply carries_firstOf_cons
  · exact h.findsSame hblanks _ fun _ _ _ hs => agree_doctype? hs _
  refine Carries.bind (h.carries_inlineStatement hblanks g) ?_ ?_
  · exact fun _ _ _ _ _ hrun hn => kept_of_found (fun _ hm => nomatch hm) hrun hn
  · rintro n n' s s' ⟨hn, hs⟩
    cases n with
    | none =>
      obtain rfl := Option.map_eq_none_iff.mp hn.symm
      exact Carries.pure fun _ => ⟨rfl, hs⟩
    | some node =>
      obtain ⟨node', rfl, -⟩ := Option.map_eq_some_iff.mp hn.symm
      exact Carries.pure fun _ => ⟨hn, hs⟩

end Split

end TemplateTree
