import TemplateTree.Production.Attributes
import TemplateTree.Proofs.Paired.Strings

/-!
# Attributes read twice

Productions for attributes agree on readings that are alike. A list that goes on with the next line
is the one place where the first reading may fail alone, when only the second source has that line.
-/

set_option autoImplicit false

namespace TemplateTree

namespace Comparison
open Node Production Correspondence

variable {K : Comparison} {lost : Prop} {r r' : Reading}

/-- The nodes that an object reference stands for. -/
theorem pairs_objectAttributes {ns ns' : List Node} {p p' : Position} (hp : K.Meets p p')
    (h : K.PairsCaptured ns ns') : K.Pairs (objectAttributes p ns) (objectAttributes p' ns') := by
  obtain ⟨hpairs, hcaptured⟩ := h
  cases ns with
  | nil =>
    obtain rfl := List.map_eq_nil_iff.mp hpairs.same.symm
    exact .nil
  | cons object others =>
    obtain ⟨object', others', rfl, hobject, hothers⟩ := hpairs.of_cons
    obtain ⟨hcapt, hrest⟩ := List.forall_mem_cons.mp hcaptured
    obtain ⟨hclass, hid⟩ := pair_objectRefs ⟨hobject, hcapt⟩ hothers.head?
      (fun m hm => hrest m (List.mem_of_mem_head? hm)) hp.at
    have hentry : ∀ (name : List Char) {m m' : Node}, K.PairCaptured m m' →
        K.Pair (.tagAttribute (ofText name p) (some m) p)
          (.tagAttribute (ofText name p') (some m') p') :=
      fun name _ _ hm => pair_tagAttribute ⟨pair_ofText name hp, trivial⟩ hm hp.at
    exact (hentry _ ⟨hid, trivial⟩).pairs.cons (hentry _ ⟨hclass, trivial⟩)

section Short
variable (h : K.Alike r r')
include h

theorem agree_nextShorthand {found found' : List Node} (hf : K.Pairs found found') :
    K.Agree lost (nextShorthand found) (nextShorthand found') r r'
      fun x x' _ _ => Repeats K.Pairs K.Pairs x x' := by
  have hvalue : K.Meets (r.cursor.positionAt (r.cursor.column + 1))
      (r'.cursor.positionAt (r'.cursor.column + 1)) := by
    rw [h.cursor.column]
    exact h.cursor.meets _
  unfold nextShorthand
  rw [agree_cursor_bind, Cursor.inLine_eq h.cursor.inside, Cursor.inLine_eq h.cursor.inside']
  apply Agree.bind (agree_eat? h _)
  intro _ _ s s' hs hq
  rcases hq with ⟨rfl, rfl, -⟩ | ⟨m, rfl, rfl, -⟩
  · exact Agree.pure hs hf
  · have hposition := h.cursor.position
    refine Agree.pure hs (hf.concat (pair_tagAttribute ?_ ?_ hposition.at))
    · exact ⟨pair_ofText _ hposition, trivial⟩
    · exact ⟨pair_ofText _ hvalue, trivial⟩

theorem agree_shorthands : K.Agree lost shorthands shorthands r r' fun as as' _ _ =>
    K.Pairs as as' := by
  apply agree_repeatWhile K.Pairs (fun _ _ hf => hf)
  · exact fun as as' s s' hs hf => agree_nextShorthand hs hf
  · exact h
  · exact .nil

theorem agree_hashEntry : K.Agree lost hashEntry hashEntry r r' fun n n' _ _ => K.Pair n n' := by
  apply Agree.bind (agree_interpolation? h)
  intro _ _ s s' hs hq
  rcases hq with ⟨rfl, rfl, rfl, rfl⟩ | ⟨m, m', rfl, rfl, hm⟩
  · apply Agree.bind (agree_attributeExpression h _)
    intro name name' s s' hs hname
    apply Agree.bind (agree_skipIndent hs)
    intro _ _ t t' ht _
    apply Agree.bind (agree_eat ht _)
    intro _ _ u u' hu hq
    rcases hq with ⟨rfl, rfl, -⟩ | ⟨m, rfl, rfl, -⟩
    · exact Agree.pure hu (pair_tagAttributeList hname hname.1.meetsAt)
    · apply Agree.bind (agree_attributeExpression hu _)
      intro value value' v v' hv hvalue
      exact Agree.pure hv (pair_tagAttribute hname hvalue hname.1.meetsAt)
  · exact Agree.pure hs (pair_tagAttributeInterpolation hm hm.1.meetsAt)

theorem agree_htmlEntry : K.Agree lost htmlEntry htmlEntry r r' fun n n' _ _ => K.Pair n n' := by
  apply Agree.bind (agree_interpolation? h)
  intro _ _ s s' hs hq
  rcases hq with ⟨rfl, rfl, rfl, rfl⟩ | ⟨m, m', rfl, rfl, hm⟩
  · rw [agree_cursor_bind, Cursor.inLine_eq h.cursor.inside, Cursor.inLine_eq h.cursor.inside']
    apply Agree.bind (agree_eat? h _)
    intro _ _ t t' ht hq
    rcases hq with ⟨rfl, rfl, -⟩ | ⟨m, rfl, rfl, -⟩
    · exact agree_expected ht _
    · have hname : K.PairCaptured (ofText (s.cursor.rest.take m.length) s.cursor.position)
          (ofText (s'.cursor.rest.take m.length) s'.cursor.position) := by
        rw [h.cursor.rest]
        exact ⟨pair_ofText _ h.cursor.position, trivial⟩
      apply Agree.bind (agree_eat ht _)
      intro _ _ u u' hu hq
      rcases hq with ⟨rfl, rfl, -⟩ | ⟨x, rfl, rfl, -⟩
      · exact Agree.pure hu (pair_flagAttribute hname hname.1.meetsAt)
      · apply Agree.bind (agree_attributeExpression hu _)
        intro value value' v v' hv hvalue
        exact Agree.pure hv (pair_tagAttribute hname hvalue hname.1.meetsAt)
  · exact Agree.pure hs (pair_tagAttributeInterpolation hm hm.1.meetsAt)

theorem agree_nextObjectPart {found found' : List Node} (hf : K.PairsCaptured found found') :
    K.Agree lost (nextObjectPart found) (nextObjectPart found') r r'
      fun x x' _ _ => Repeats K.PairsCaptured K.PairsCaptured x x' := by
  apply Agree.bind (agree_eat h _)
  intro _ _ s s' hs hq
  rcases hq with ⟨rfl, rfl, -⟩ | ⟨m, rfl, rfl, -⟩
  · apply Agree.bind (agree_expression hs _)
    rintro ⟨text, position⟩ ⟨text', position'⟩ t t' ht he
    have hf' : K.PairsCaptured (found ++ [ofExpression text position])
        (found' ++ [ofExpression text' position']) := by
      refine ⟨hf.1.concat he.pair.1, fun n hn => ?_⟩
      rcases List.mem_append.mp hn with hn | hn
      · exact hf.2 n hn
      · rw [List.mem_singleton.mp hn]
        exact he.pair.2
    apply Agree.bind (agree_eat ht _)
    intro _ _ u u' hu hq
    rcases hq with ⟨rfl, rfl, -⟩ | ⟨x, rfl, rfl, -⟩
    · apply Agree.bind (agree_eat hu _)
      intro _ _ v v' hv hq
      rcases hq with ⟨rfl, rfl, -⟩ | ⟨x, rfl, rfl, -⟩
      · exact agree_expected_bind hv _
      · exact Agree.pure hv hf'
    · exact Agree.pure hu hf'
  · exact Agree.pure hs hf

theorem agree_objectReference : K.Agree lost objectReference objectReference r r'
    fun as as' _ _ => K.Pairs as as' := by
  unfold objectReference
  rw [agree_cursor_bind, Cursor.inLine_eq h.cursor.inside, Cursor.inLine_eq h.cursor.inside']
  apply Agree.bind (agree_eat h _)
  intro _ _ s s' hs hq
  rcases hq with ⟨rfl, rfl, -⟩ | ⟨m, rfl, rfl, -⟩
  · exact Agree.pure hs .nil
  · have hparts : K.Agree lost objectParts objectParts s s' fun ns ns' _ _ =>
        K.PairsCaptured ns ns' := by
      apply agree_repeatWhile K.PairsCaptured (fun _ _ hf => hf)
      · exact fun ns ns' t t' ht hf => agree_nextObjectPart ht hf
      · exact hs
      · exact ⟨.nil, by simp⟩
    apply Agree.bind hparts
    exact fun ns ns' t t' ht hns => Agree.pure ht (pairs_objectAttributes h.cursor.position hns)

end Short

section Lists
variable (hlost : K.extra ≠ [] → lost) (h : K.Alike r r')
include hlost h

theorem agree_continueList (closer : Char) :
    K.Agree lost (continueList closer) (continueList closer) r r' fun _ _ _ _ => True := by
  unfold continueList
  rw [agree_cursor_bind]
  cases hp : r.cursor.peekLine with
  | none =>
    by_cases hextra : K.extra = []
    · have hp' : r'.cursor.peekLine = none := by
        rw [Cursor.peekLine_eq] at hp ⊢
        rw [h.cursor.upcoming, hextra, List.append_nil, hp]
      rw [hp']
      exact agree_expected_bind h _
    · exact Agree.of_lost (hlost hextra) (run_expected_bind h.cursor.inside _)
  | some line =>
    have hp' := h.cursor.peekLine hp
    rw [hp']
    have henter : K.Agree lost (discard nextLine) (discard nextLine) r r' fun _ _ _ _ => True :=
      Agree.bind (agree_nextLine h hp) fun _ _ _ _ hs _ => Agree.pure hs trivial
    apply Agree.bind henter
    exact fun _ _ s s' hs _ => (agree_skipIndent hs).imp fun _ _ _ _ _ _ => trivial

theorem agree_continueList_pure {β : Type} {b b' : β} {Q : β → β → Prop} (closer : Char)
    (hq : Q b b') :
    K.Agree lost
      (do
        if (← cursor).isEnd then continueList closer
        return b)
      (do
        if (← cursor).isEnd then continueList closer
        return b') r r' fun x x' _ _ => Q x x' := by
  rw [agree_cursor_bind, h.cursor.isEnd]
  split
  · apply Agree.bind (agree_continueList hlost h closer)
    exact fun _ _ s s' hs _ => Agree.pure hs hq
  · exact Agree.pure h hq

theorem agree_nextHashEntry {found found' : List Node} (hf : K.Pairs found found') :
    K.Agree lost (nextHashEntry found) (nextHashEntry found') r r'
      fun x x' _ _ => Repeats K.Pairs K.Pairs x x' := by
  apply Agree.bind (agree_hashEntry h)
  intro n n' s s' hs hn
  have hf' := hf.concat hn
  apply Agree.bind (agree_skipIndent hs)
  intro _ _ t t' ht _
  apply Agree.bind (agree_eat ht _)
  intro _ _ u u' hu hq
  rcases hq with ⟨rfl, rfl, -⟩ | ⟨x, rfl, rfl, -⟩
  · apply Agree.bind (agree_eat hu _)
    intro _ _ v v' hv hq
    rcases hq with ⟨rfl, rfl, -⟩ | ⟨x, rfl, rfl, -⟩
    · exact agree_expected_bind hv _
    · exact agree_continueList_pure hlost hv _ hf'
  · exact Agree.pure hu hf'

theorem agree_nextHtmlEntry {found found' : List Node} (hf : K.Pairs found found') :
    K.Agree lost (nextHtmlEntry found) (nextHtmlEntry found') r r'
      fun x x' _ _ => Repeats K.Pairs K.Pairs x x' := by
  apply Agree.bind (agree_htmlEntry h)
  intro n n' s s' hs hn
  have hf' := hf.concat hn
  apply Agree.bind (agree_eat hs _)
  intro _ _ t t' ht hq
  rcases hq with ⟨rfl, rfl, -⟩ | ⟨x, rfl, rfl, -⟩
  · apply Agree.bind (agree_eat ht _)
    intro separated separated' u u' hu hq
    have hseparated : separated' = separated := by
      rcases hq with ⟨rfl, rfl, -⟩ | ⟨x, rfl, rfl, -⟩ <;> rfl
    rw [hseparated, agree_cursor_bind, hu.cursor.isEnd]
    split
    · exact agree_expected_bind hu _
    · exact agree_continueList_pure hlost hu _ hf'
  · exact Agree.pure ht hf'

theorem agree_hashAttributes : K.Agree lost hashAttributes hashAttributes r r'
    fun as as' _ _ => K.Pairs as as' := by
  apply Agree.bind (agree_eat h _)
  intro _ _ s s' hs hq
  rcases hq with ⟨rfl, rfl, -⟩ | ⟨m, rfl, rfl, -⟩
  · exact Agree.pure hs .nil
  · apply agree_repeatWhile K.Pairs (fun _ _ hf => hf)
    · exact fun as as' t t' ht hf => agree_nextHashEntry hlost ht hf
    · exact hs
    · exact .nil

theorem agree_htmlAttributes : K.Agree lost htmlAttributes htmlAttributes r r'
    fun as as' _ _ => K.Pairs as as' := by
  apply Agree.bind (agree_eat h _)
  intro _ _ s s' hs hq
  rcases hq with ⟨rfl, rfl, -⟩ | ⟨m, rfl, rfl, -⟩
  · exact Agree.pure hs .nil
  · apply agree_repeatWhile K.Pairs (fun _ _ hf => hf)
    · exact fun as as' t t' ht hf => agree_nextHtmlEntry hlost ht hf
    · exact hs
    · exact .nil

theorem agree_attributeList {c : Char} {list : Production (List Node)}
    (hl : attributeList? c = some list) :
    K.Agree lost list list r r' fun as as' _ _ => K.Pairs as as' := by
  unfold attributeList? at hl
  split at hl
  · obtain rfl := Option.some.inj hl
    exact agree_hashAttributes hlost h
  · split at hl
    · obtain rfl := Option.some.inj hl
      exact agree_htmlAttributes hlost h
    · split at hl
      · obtain rfl := Option.some.inj hl
        exact agree_objectReference h
      · cases hl

/-- The lists that are collected, opened by the same brackets. -/
def PairCollected (K : Comparison) (s s' : Collected) : Prop :=
  s'.opened = s.opened ∧ K.Pairs s.found s'.found

theorem agree_nextAttributeList {s s' : Collected} (hf : PairCollected K s s') :
    K.Agree lost (nextAttributeList s) (nextAttributeList s') r r'
      fun x x' _ _ => Repeats (PairCollected K) (PairCollected K) x x' := by
  unfold nextAttributeList
  rw [agree_peekChar_bind h]
  cases r.cursor.rest.head? with
  | none => exact Agree.pure h hf
  | some c =>
    cases hl : attributeList? c with
    | none =>
      simp only [hl]
      exact Agree.pure h hf
    | some list =>
      simp only [hl, hf.1]
      split
      · exact Agree.pure h hf
      · apply Agree.bind (agree_attributeList hlost h hl)
        exact fun as as' t t' ht has => Agree.pure ht ⟨rfl, hf.2.append has⟩

theorem agree_tagAttributes : K.Agree lost tagAttributes tagAttributes r r'
    fun as as' _ _ => K.Pairs as as' := by
  apply Agree.bind (agree_shorthands h)
  intro short short' s s' hs hshort
  have hlists : K.Agree lost (repeatWhile nextAttributeList ⟨[], short⟩)
      (repeatWhile nextAttributeList ⟨[], short'⟩) s s' fun x x' _ _ => PairCollected K x x' := by
    apply agree_repeatWhile (PairCollected K) (fun _ _ hf => hf)
    · exact fun x x' t t' ht hf => agree_nextAttributeList hlost ht hf
    · exact hs
    · exact ⟨rfl, hshort⟩
  apply Agree.bind hlists
  exact fun x x' t t' ht hx => Agree.pure ht hx.2

end Lists

end Comparison

end TemplateTree
