import TemplateTree.Production.Attributes
import TemplateTree.Proofs.Strings

/-!
# Attributes

Every production for attributes gives attributes only, and every entry of a list reads some of the
source, so that a list ends at its closing bracket or with a refusal.
-/

set_option autoImplicit false

namespace TemplateTree

namespace Node

/-- Nodes that may stand among the attributes of a tag. -/
def AreAttributes (i : Bool) (as : List Node) : Prop :=
  ∀ a ∈ as, a.IsAttribute ∧ a.Everywhere (Sound i)

variable {i : Bool} {as bs : List Node} {name value n : Node}

theorem areAttributes_nil : AreAttributes i [] := by simp [AreAttributes]

theorem AreAttributes.append (ha : AreAttributes i as) (hb : AreAttributes i bs) :
    AreAttributes i (as ++ bs) := by
  intro n hn
  rcases List.mem_append.mp hn with hn | hn
  · exact ha n hn
  · exact hb n hn

theorem AreAttributes.concat (ha : AreAttributes i as) (hk : n.IsAttribute)
    (hn : n.Everywhere (Sound i)) : AreAttributes i (as ++ [n]) :=
  ha.append fun m hm => by rw [List.mem_singleton.mp hm]; exact ⟨hk, hn⟩

theorem sound_tagAttribute (hname : name.Everywhere (Sound i))
    (hvalue : value.Everywhere (Sound i)) (p : Option Position) :
    (tagAttribute name (some value) p).Everywhere (Sound i) := by
  refine .intro ⟨trivial, trivial⟩ ?_
  intro m hm
  simp only [subnodes, Option.toList_some, List.mem_cons, List.not_mem_nil, or_false] at hm
  rcases hm with rfl | rfl
  · exact hname
  · exact hvalue

theorem sound_flagAttribute (hname : name.Everywhere (Sound i)) (p : Option Position) :
    (tagAttribute name none p).Everywhere (Sound i) := by
  refine .intro ⟨trivial, trivial⟩ ?_
  intro m hm
  rwa [List.mem_singleton.mp hm]

theorem sound_tagAttributeList (hvalue : value.Everywhere (Sound i)) (p : Option Position) :
    (tagAttributeList value p).Everywhere (Sound i) := by
  refine .intro ⟨trivial, trivial⟩ ?_
  intro m hm
  rwa [List.mem_singleton.mp hm]

theorem sound_tagAttributeInterpolation (cs : List Char) (p : Position) (q : Option Position) :
    (tagAttributeInterpolation (ofExpression cs p) q).Everywhere (Sound i) := by
  refine .intro ⟨rfl, trivial⟩ ?_
  intro m hm
  rw [List.mem_singleton.mp hm]
  exact sound_insert _ _ _ _

/-- The nodes that an object reference stands for. -/
theorem areAttributes_objectAttributes {parts : List Node} (position : Position)
    (h : ∀ n ∈ parts, n.Everywhere (Sound i)) :
    AreAttributes i (Production.objectAttributes position parts) := by
  cases parts with
  | nil => exact areAttributes_nil
  | cons object others =>
    have hbelow : ∀ m ∈ object :: others.head?.toList, m.Everywhere (Sound i) := by
      intro m hm
      rcases List.mem_cons.mp hm with rfl | hm
      · exact h _ List.mem_cons_self
      · exact h m (List.mem_cons_of_mem _ (List.mem_of_mem_head? (Option.mem_toList.mp hm)))
    intro n hn
    simp only [Production.objectAttributes, List.mem_cons, List.not_mem_nil, or_false] at hn
    rcases hn with rfl | rfl <;> refine ⟨trivial, sound_tagAttribute (sound_text _ _) ?_ _⟩
    · exact .intro ⟨trivial, trivial⟩ hbelow
    · exact .intro ⟨trivial, trivial⟩ hbelow

end Node

namespace Pattern

theorem consumes_shorthand : Consumes shorthand := consumes_sequence (consumes_satisfy _).captured _

/-- A bracket with the blanks after it, as every list of attributes opens. -/
theorem consumes_opening (c : Char) : Consumes (sequence [char c, blanks]) :=
  consumes_sequence (consumes_char _) _

theorem opening_ne_none {c : Char} {cs : List Char} (h : cs.head? = some c) :
    sequence [char c, blanks] cs ≠ none := by
  cases cs with
  | nil => simp at h
  | cons d cs =>
    simp only [List.head?_cons, Option.some.injEq] at h
    simp [sequence, andThen, char, satisfy, h, blanks, many]

end Pattern

namespace Production
open Node

theorem run_continueList {line : List Char} {r : Reading} (hp : r.cursor.peekLine = some line)
    (closer : Char) : (continueList closer).run r =
      (.ok (), { r with cursor := r.cursor.nextLine.2.skipIndent }) := by
  unfold continueList nextLine skipIndent
  rw [run_cursor_bind, hp]
  rfl

variable {i : Bool} {r : Reading} (h : r.cursor.Inside)
include h

theorem reads_continueList (closer : Char) : Reads (continueList closer) r fun _ _ => True := by
  unfold continueList
  rw [reads_cursor_bind]
  cases hp : r.cursor.peekLine with
  | none => exact reads_expected_bind h _
  | some line =>
    refine Reads.bind (p := discard nextLine) (Q := fun _ _ => True) ?_ ?_
    · exact Reads.bind (reads_nextLine hp) fun _ _ hon _ => Reads.pure hon.inside trivial
    · exact fun _ _ hon _ => (reads_skipIndent hon.inside).imp fun _ _ _ _ => trivial

theorem reads_nextShorthand {found : List Node} (hf : AreAttributes i found) :
    Reads (nextShorthand found) r (Repeats (fun as _ => AreAttributes i as)
      (fun as _ => AreAttributes i as) r) := by
  unfold nextShorthand
  rw [reads_cursor_bind, Cursor.inLine_eq h]
  apply Reads.bind (reads_eat? h _)
  intro _ r₁ hon hq
  rcases hq with ⟨rfl, _, rfl⟩ | ⟨m, rfl, hm, rfl⟩
  · exact Reads.pure h hf
  · obtain ⟨hpos, hne⟩ := Pattern.consumes_shorthand _ _ hm
    refine Reads.pure hon.inside ⟨hf.concat trivial ?_, Cursor.remaining_skip_lt h hpos hne⟩
    exact sound_tagAttribute (sound_text _ _) (sound_text _ _) _

theorem reads_shorthands : Reads shorthands r fun as _ => AreAttributes i as := by
  apply reads_repeatWhile h (fun as _ => AreAttributes i as) areAttributes_nil
  intro as r₁ hon hi
  exact reads_nextShorthand hon.inside hi

theorem reads_hashEntry : Reads hashEntry r fun n r' =>
    n.IsAttribute ∧ n.Everywhere (Sound i) ∧ r'.cursor.remaining < r.cursor.remaining := by
  apply Reads.bind (reads_interpolation? h)
  intro _ r₁ hon₁ hq
  rcases hq with ⟨rfl, rfl⟩ | ⟨cs, p, rfl, hlt⟩
  · apply Reads.bind (reads_attributeExpression (i := i) h _)
    intro name r₂ hon₂ hq
    obtain ⟨hname, hlt⟩ := hq
    apply Reads.bind (reads_skipIndent hon₂.inside)
    intro _ r₃ hon₃ heq
    subst heq
    apply Reads.bind (reads_eat hon₃.inside _)
    intro _ r₄ hon₄ hq
    rcases hq with ⟨rfl, _, rfl⟩ | ⟨m, rfl, _, rfl⟩
    · refine Reads.pure hon₃.inside ⟨trivial, sound_tagAttributeList hname _, ?_⟩
      exact Nat.lt_of_le_of_lt hon₃.remaining_le hlt
    · apply Reads.bind (reads_attributeExpression (i := i) hon₄.inside _)
      intro value r₅ hon₅ hq
      obtain ⟨hvalue, _⟩ := hq
      refine Reads.pure hon₅.inside ⟨trivial, sound_tagAttribute hname hvalue _, ?_⟩
      exact Nat.lt_of_le_of_lt ((hon₃.trans hon₄).trans hon₅).remaining_le hlt
  · exact Reads.pure hon₁.inside ⟨rfl, sound_tagAttributeInterpolation _ _ _, hlt⟩

/-- The end of an entry: a list goes on with the next line when this one has ended. -/
theorem reads_continueList_pure {β : Type} {b : β} {Q : β → Reading → Prop} (closer : Char)
    (hq : ∀ r', r.Onward r' → Q b r') :
    Reads (do
      if (← cursor).isEnd then continueList closer
      return b) r Q := by
  rw [reads_cursor_bind]
  split
  · apply Reads.bind (reads_continueList h closer)
    exact fun _ r' hon _ => Reads.pure hon.inside (hq r' hon)
  · exact Reads.pure h (hq r (.refl h))

theorem reads_nextHashEntry {found : List Node} (hf : AreAttributes i found) :
    Reads (nextHashEntry found) r (Repeats (fun as _ => AreAttributes i as)
      (fun as _ => AreAttributes i as) r) := by
  apply Reads.bind (reads_hashEntry (i := i) h)
  intro n r₁ hon₁ hq
  obtain ⟨hk, hn, hlt⟩ := hq
  have hf' := hf.concat hk hn
  apply Reads.bind (reads_skipIndent hon₁.inside)
  intro _ r₂ hon₂ heq
  subst heq
  have hlt₂ := Nat.lt_of_le_of_lt hon₂.remaining_le hlt
  apply Reads.bind (reads_eat hon₂.inside _)
  intro _ r₃ hon₃ hq
  rcases hq with ⟨rfl, _, rfl⟩ | ⟨m, rfl, _, rfl⟩
  · apply Reads.bind (reads_eat hon₃.inside _)
    intro _ r₄ hon₄ hq
    rcases hq with ⟨rfl, _, rfl⟩ | ⟨m, rfl, _, rfl⟩
    · exact reads_expected_bind hon₃.inside _
    · apply reads_continueList_pure hon₄.inside _
      exact fun r₅ hon₅ => ⟨hf', Nat.lt_of_le_of_lt (hon₄.trans hon₅).remaining_le hlt₂⟩
  · exact Reads.pure hon₃.inside hf'

/-- A list that starts with its bracket reads some of the source. -/
theorem reads_opening {c : Char} {body : Production (List Node)}
    (hbody : ∀ r₁, r.Onward r₁ → Reads body r₁ fun as _ => AreAttributes i as) :
    Reads (do
      if !(← eat (Pattern.sequence [Pattern.char c, Pattern.blanks])) then return []
      body) r fun as r' => AreAttributes i as ∧
        (r.cursor.rest.head? = some c → r'.cursor.remaining < r.cursor.remaining) := by
  apply Reads.bind (reads_eat h _)
  intro _ r₁ hon hq
  rcases hq with ⟨rfl, hp, rfl⟩ | ⟨m, rfl, hm, rfl⟩
  · exact Reads.pure h ⟨areAttributes_nil, fun hhead => absurd hp (Pattern.opening_ne_none hhead)⟩
  · obtain ⟨hpos, hne⟩ := Pattern.consumes_opening c _ _ hm
    have hlt := Cursor.remaining_skip_lt h hpos hne
    apply (hbody _ hon).imp
    exact fun as r₂ hon₂ has => ⟨has, fun _ => Nat.lt_of_le_of_lt hon₂.remaining_le hlt⟩

theorem reads_hashAttributes : Reads hashAttributes r fun as r' => AreAttributes i as ∧
    (r.cursor.rest.head? = some '{' → r'.cursor.remaining < r.cursor.remaining) := by
  refine reads_opening h fun r₁ hon₁ => ?_
  apply reads_repeatWhile hon₁.inside (fun as _ => AreAttributes i as) areAttributes_nil
  exact fun as r₂ hon₂ hi => reads_nextHashEntry hon₂.inside hi

theorem reads_htmlEntry : Reads htmlEntry r fun n r' =>
    n.IsAttribute ∧ n.Everywhere (Sound i) ∧ r'.cursor.remaining < r.cursor.remaining := by
  apply Reads.bind (reads_interpolation? h)
  intro _ r₁ hon₁ hq
  rcases hq with ⟨rfl, rfl⟩ | ⟨cs, p, rfl, hlt⟩
  · rw [reads_cursor_bind, Cursor.inLine_eq h]
    apply Reads.bind (reads_eat? h _)
    intro _ r₂ hon₂ hq
    rcases hq with ⟨rfl, _, rfl⟩ | ⟨m, rfl, hm, rfl⟩
    · exact reads_expected h _
    · obtain ⟨hpos, hne⟩ := Pattern.consumes_some1 _ _ _ hm
      have hlt := Cursor.remaining_skip_lt h hpos hne
      apply Reads.bind (reads_eat hon₂.inside _)
      intro _ r₃ hon₃ hq
      rcases hq with ⟨rfl, _, rfl⟩ | ⟨m, rfl, _, rfl⟩
      · exact Reads.pure hon₃.inside ⟨trivial, sound_flagAttribute (sound_text _ _) _, hlt⟩
      · apply Reads.bind (reads_attributeExpression (i := i) hon₃.inside _)
        intro value r₄ hon₄ hq
        obtain ⟨hvalue, _⟩ := hq
        refine Reads.pure hon₄.inside ⟨trivial, sound_tagAttribute (sound_text _ _) hvalue _, ?_⟩
        exact Nat.lt_of_le_of_lt (hon₃.trans hon₄).remaining_le hlt
  · exact Reads.pure hon₁.inside ⟨rfl, sound_tagAttributeInterpolation _ _ _, hlt⟩

theorem reads_nextHtmlEntry {found : List Node} (hf : AreAttributes i found) :
    Reads (nextHtmlEntry found) r (Repeats (fun as _ => AreAttributes i as)
      (fun as _ => AreAttributes i as) r) := by
  apply Reads.bind (reads_htmlEntry (i := i) h)
  intro n r₁ hon₁ hq
  obtain ⟨hk, hn, hlt⟩ := hq
  have hf' := hf.concat hk hn
  apply Reads.bind (reads_eat hon₁.inside _)
  intro _ r₂ hon₂ hq
  rcases hq with ⟨rfl, _, rfl⟩ | ⟨m, rfl, _, rfl⟩
  · apply Reads.bind (reads_eat hon₂.inside _)
    intro separated r₃ hon₃ _
    rw [reads_cursor_bind]
    split
    · exact reads_expected_bind hon₃.inside _
    · apply reads_continueList_pure hon₃.inside _
      exact fun r₄ hon₄ => ⟨hf', Nat.lt_of_le_of_lt (hon₃.trans hon₄).remaining_le hlt⟩
  · exact Reads.pure hon₂.inside hf'

theorem reads_htmlAttributes : Reads htmlAttributes r fun as r' => AreAttributes i as ∧
    (r.cursor.rest.head? = some '(' → r'.cursor.remaining < r.cursor.remaining) := by
  refine reads_opening h fun r₁ hon₁ => ?_
  apply reads_repeatWhile hon₁.inside (fun as _ => AreAttributes i as) areAttributes_nil
  exact fun as r₂ hon₂ hi => reads_nextHtmlEntry hon₂.inside hi

theorem reads_nextObjectPart {found : List Node} (hf : ∀ n ∈ found, n.Everywhere (Sound i)) :
    Reads (nextObjectPart found) r (Repeats (fun ns _ => ∀ n ∈ ns, n.Everywhere (Sound i))
      (fun ns _ => ∀ n ∈ ns, n.Everywhere (Sound i)) r) := by
  apply Reads.bind (reads_eat h _)
  intro _ r₁ hon₁ hq
  rcases hq with ⟨rfl, _, rfl⟩ | ⟨m, rfl, _, rfl⟩
  · apply Reads.bind (reads_expression h _)
    rintro ⟨text, position⟩ r₂ hon₂ hlt
    have hf' : ∀ n ∈ found ++ [Node.ofExpression text position], n.Everywhere (Sound i) := by
      intro n hn
      rcases List.mem_append.mp hn with hn | hn
      · exact hf n hn
      · rw [List.mem_singleton.mp hn]
        exact sound_insert _ _ _ _
    apply Reads.bind (reads_eat hon₂.inside _)
    intro _ r₃ hon₃ hq
    rcases hq with ⟨rfl, _, rfl⟩ | ⟨m, rfl, _, rfl⟩
    · apply Reads.bind (reads_eat hon₂.inside _)
      intro _ r₄ hon₄ hq
      rcases hq with ⟨rfl, _, rfl⟩ | ⟨m, rfl, _, rfl⟩
      · exact reads_expected_bind hon₂.inside _
      · exact Reads.pure hon₄.inside ⟨hf', Nat.lt_of_le_of_lt hon₄.remaining_le hlt⟩
    · exact Reads.pure hon₃.inside hf'
  · exact Reads.pure hon₁.inside hf

theorem reads_objectReference : Reads objectReference r fun as r' => AreAttributes i as ∧
    (r.cursor.rest.head? = some '[' → r'.cursor.remaining < r.cursor.remaining) := by
  unfold objectReference
  rw [reads_cursor_bind]
  refine reads_opening h fun r₁ hon₁ => ?_
  refine Reads.bind (reads_repeatWhile hon₁.inside
    (fun ns _ => ∀ n ∈ ns, n.Everywhere (Sound i))
    (R := fun ns _ => ∀ n ∈ ns, n.Everywhere (Sound i)) (by simp) ?_) ?_
  · exact fun as r₂ hon₂ hi => reads_nextObjectPart hon₂.inside hi
  · exact fun ns r₂ hon₂ hns => Reads.pure hon₂.inside (areAttributes_objectAttributes _ hns)

theorem reads_attributeList {c : Char} {list : Production (List Node)}
    (hl : attributeList? c = some list) (hc : r.cursor.rest.head? = some c) :
    Reads list r fun as r' => AreAttributes i as ∧ r'.cursor.remaining < r.cursor.remaining := by
  unfold attributeList? at hl
  split at hl
  · rename_i he
    obtain rfl := Option.some.inj hl
    rw [beq_iff_eq.mp he] at hc
    exact (reads_hashAttributes h).imp fun _ _ _ ha => ⟨ha.1, ha.2 hc⟩
  · split at hl
    · rename_i he
      obtain rfl := Option.some.inj hl
      rw [beq_iff_eq.mp he] at hc
      exact (reads_htmlAttributes h).imp fun _ _ _ ha => ⟨ha.1, ha.2 hc⟩
    · split at hl
      · rename_i he
        obtain rfl := Option.some.inj hl
        rw [beq_iff_eq.mp he] at hc
        exact (reads_objectReference h).imp fun _ _ _ ha => ⟨ha.1, ha.2 hc⟩
      · simp at hl

theorem reads_nextAttributeList {s : Collected} (hf : AreAttributes i s.found) :
    Reads (nextAttributeList s) r (Repeats (fun s _ => AreAttributes i s.found)
      (fun s _ => AreAttributes i s.found) r) := by
  unfold nextAttributeList
  rw [reads_peekChar_bind h]
  cases hc : r.cursor.rest.head? with
  | none => exact Reads.pure h hf
  | some c =>
    cases hl : attributeList? c with
    | none =>
      simp only [hl]
      exact Reads.pure h hf
    | some list =>
      simp only [hl]
      split
      · exact Reads.pure h hf
      · apply Reads.bind (reads_attributeList (i := i) h hl hc)
        exact fun as r₁ hon₁ has => Reads.pure hon₁.inside ⟨hf.append has.1, has.2⟩

theorem reads_tagAttributes : Reads tagAttributes r fun as _ => AreAttributes i as := by
  apply Reads.bind (reads_shorthands (i := i) h)
  intro short r₁ hon₁ hshort
  refine Reads.bind (reads_repeatWhile hon₁.inside (fun s _ => AreAttributes i s.found)
    (R := fun s _ => AreAttributes i s.found) hshort ?_) ?_
  · exact fun s r₂ hon₂ hi => reads_nextAttributeList hon₂.inside hi
  · exact fun s r₂ hon₂ hs => Reads.pure hon₂.inside hs

end Production

end TemplateTree
