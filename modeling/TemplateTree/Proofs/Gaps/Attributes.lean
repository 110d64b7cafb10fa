import TemplateTree.Proofs.Gaps.Carrying

/-!
# Attributes before a gap

A list of attributes may go on with the next line. Where it ends before the gap, the lines that it
went on with are lines of both sources.
-/

set_option autoImplicit false

namespace TemplateTree

open Production Comparison

variable {tail tail' : List (List Char)} {c : Cursor} {r r' : Reading}

namespace Split

theorem carries_continueList (h : Split tail tail' c r r') (closer : Char) :
    Carries (fun _ s => s.Before tail) (continueList closer) (continueList closer) r r'
      fun _ _ s s' => Apart tail tail' s s' := by
  cases hp : r.cursor.peekLine with
  | none =>
    apply Carries.of_error
    unfold continueList
    rw [run_cursor_bind, hp]
    exact run_expected_bind h.inside _
  | some line =>
    intro _ s hrun hs
    rw [run_continueList hp] at hrun
    obtain ⟨-, rfl⟩ := Prod.mk.inj hrun
    have hahead := Cursor.upcoming_of_peekLine hp
    cases hshared : c.upcoming with
    | nil =>
      -- the line that is entered stands behind the gap
      have hpassed : r.cursor.nextLine.2.skipIndent.upcoming = r.cursor.upcoming.tail :=
        Cursor.upcoming_nextLine hahead
      have hlength := congrArg List.length hahead
      rw [Reading.Before, hpassed] at hs
      rw [h.upcoming, hshared, List.nil_append] at hs hlength
      rw [List.length_cons] at hlength
      omega
    | cons line' shared =>
      have hpc := Cursor.peekLine_of_upcoming hshared
      have hp' := h.second.peekLine hpc
      refine ⟨(), _, run_continueList hp' closer, c.nextLine.2.skipIndent, ?_⟩
      exact h.move (h.first.nextLine hpc).skipIndent (h.second.nextLine hpc).skipIndent

theorem carries_continueList_pure (h : Split tail tail' c r r') {β : Type} {b b' : β}
    {S : β → β → Prop} (closer : Char) (hb : S b b') :
    Carries (fun _ s => s.Before tail)
      (do
        if (← cursor).isEnd then continueList closer
        return b)
      (do
        if (← cursor).isEnd then continueList closer
        return b') r r' fun x x' s s' => S x x' ∧ Apart tail tail' s s' := by
  rw [carries_cursor_bind, h.isEnd]
  split
  · exact (h.carries_continueList closer).bind_pure (fun _ _ hu => hu) fun _ _ s s' hs => ⟨hb, hs⟩
  · exact Carries.pure fun _ => ⟨hb, c, h⟩

theorem carries_nextHashEntry (h : Split tail tail' c r r') {found found' : List Node}
    (hf : SameColumns found found') : Carries (fun _ s => s.Before tail) (nextHashEntry found)
      (nextHashEntry found') r r' fun x x' s s' =>
        Comparison.Repeats SameColumns SameColumns x x' ∧ Apart tail tail' s s' := by
  unfold nextHashEntry
  apply h.carries_bind Node.lineless
    fun extra s _ hs => (agree_hashEntry hs).imp fun _ _ _ _ _ hn => hn.same
  intro n n' d s s' hs hn
  have hf' := hf.concat hn
  apply hs.carries_skipIndent_bind
  intro t t' ht
  apply ht.carries_eat_bind
  intro closed d u u' hu
  split
  · exact Carries.pure fun _ => ⟨hf', d, hu⟩
  · apply hu.carries_eat_bind
    intro separated d v v' hv
    split
    · exact carries_expected_bind hv.inside _
    · exact hv.carries_continueList_pure _ hf'

theorem carries_nextHtmlEntry (h : Split tail tail' c r r') {found found' : List Node}
    (hf : SameColumns found found') : Carries (fun _ s => s.Before tail) (nextHtmlEntry found)
      (nextHtmlEntry found') r r' fun x x' s s' =>
        Comparison.Repeats SameColumns SameColumns x x' ∧ Apart tail tail' s s' := by
  unfold nextHtmlEntry
  apply h.carries_bind Node.lineless
    fun extra s _ hs => (agree_htmlEntry hs).imp fun _ _ _ _ _ hn => hn.same
  intro n n' d s s' hs hn
  have hf' := hf.concat hn
  apply hs.carries_eat_bind
  intro closed d t t' ht
  split
  · exact Carries.pure fun _ => ⟨hf', d, ht⟩
  · apply ht.carries_eat_bind
    intro separated d u u' hu
    rw [carries_cursor_bind, hu.isEnd]
    split
    · exact carries_expected_bind hu.inside _
    · exact hu.carries_continueList_pure _ hf'

/-- A list of attributes is its bracket and the entries after it. -/
theorem carries_opening (h : Split tail tail' c r r') {pattern : Pattern}
    {step : List Node → Production (ForInStep (List Node))}
    (hreads : ∀ as s, s.cursor.Inside → Node.AreAttributes true as → Reads (step as) s
      (Production.Repeats (fun as _ => Node.AreAttributes true as)
        (fun as _ => Node.AreAttributes true as) s))
    (hstep : ∀ as as' d s s', Split tail tail' d s s' → SameColumns as as' →
      Carries (fun _ t => t.Before tail) (step as) (step as') s s' fun x x' t t' =>
        Comparison.Repeats SameColumns SameColumns x x' ∧ Apart tail tail' t t') :
    Carries (fun _ s => s.Before tail)
      (do
        if !(← eat pattern) then return []
        repeatWhile step [])
      (do
        if !(← eat pattern) then return []
        repeatWhile step []) r r' fun as as' s s' => SameColumns as as' ∧ Apart tail tail' s s' := by
  apply h.carries_eat_bind
  intro opened d s s' hs
  split
  · exact Carries.pure fun _ => ⟨rfl, d, hs⟩
  · exact carries_repeatWhile hreads hstep [] [] s s' ⟨d, hs⟩ Node.areAttributes_nil rfl

theorem carries_attributeList (h : Split tail tail' c r r') {bracket : Char}
    {list : Production (List Node)} (hl : attributeList? bracket = some list) :
    Carries (fun _ s => s.Before tail) list list r r' fun as as' s s' =>
      SameColumns as as' ∧ Apart tail tail' s s' := by
  unfold attributeList? at hl
  split at hl
  · obtain rfl := Option.some.inj hl
    exact h.carries_opening (fun as s hs ha => reads_nextHashEntry hs ha)
      fun as as' d s s' hs ha => hs.carries_nextHashEntry ha
  · split at hl
    · obtain rfl := Option.some.inj hl
      exact h.carries_opening (fun as s hs ha => reads_nextHtmlEntry hs ha)
        fun as as' d s s' hs ha => hs.carries_nextHtmlEntry ha
    · split at hl
      · obtain rfl := Option.some.inj hl
        exact h.carries (List.map Node.lineless) fun extra s _ hs =>
          (agree_objectReference hs).imp fun _ _ _ _ _ has => has.same
      · cases hl

theorem carries_nextAttributeList (h : Split tail tail' c r r') {found found' : Collected}
    (hf : found'.opened = found.opened ∧ SameColumns found.found found'.found) :
    Carries (fun _ s => s.Before tail) (nextAttributeList found) (nextAttributeList found') r r'
      fun x x' s s' => Comparison.Repeats
        (fun f f' => f'.opened = f.opened ∧ SameColumns f.found f'.found)
        (fun f f' => f'.opened = f.opened ∧ SameColumns f.found f'.found) x x' ∧
          Apart tail tail' s s' := by
  unfold nextAttributeList
  rw [h.carries_peekChar_bind]
  cases r.cursor.rest.head? with
  | none => exact Carries.pure fun _ => ⟨hf, c, h⟩
  | some bracket =>
    cases hl : attributeList? bracket with
    | none =>
      simp only [hl]
      exact Carries.pure fun _ => ⟨hf, c, h⟩
    | some list =>
      simp only [hl, hf.1]
      split
      · exact Carries.pure fun _ => ⟨hf, c, h⟩
      · exact (h.carries_attributeList hl).bind_pure (fun _ _ hu => hu)
          fun as as' s s' has => ⟨⟨rfl, hf.2.append has.1⟩, has.2⟩

theorem carries_tagAttributes (h : Split tail tail' c r r') :
    Carries (fun _ s => s.Before tail) tagAttributes tagAttributes r r' fun as as' s s' =>
      SameColumns as as' ∧ Apart tail tail' s s' := by
  have hshort : Carries (fun _ _ => True) shorthands shorthands r r' fun as as' s s' =>
      SameColumns as as' ∧ Apart tail tail' s s' :=
    h.carries (List.map Node.lineless) fun extra s _ hs =>
      (agree_shorthands hs).imp fun _ _ _ _ _ has => has.same
  refine Carries.bind (hshort.and_reads (reads_shorthands (i := true) h.inside))
    (fun _ _ _ _ _ _ _ => trivial) ?_
  rintro short short' s s' ⟨⟨hsame, hs⟩, -, hattributes⟩
  have hlists := carries_repeatWhile
    (fun f t ht hf => reads_nextAttributeList ht hf)
    (fun f f' d t t' ht hf => ht.carries_nextAttributeList hf)
    ⟨[], short⟩ ⟨[], short'⟩ s s' hs hattributes ⟨rfl, hsame⟩
  exact hlists.bind_pure (fun _ _ hu => hu) fun f f' t t' hf => ⟨hf.1.2, hf.2⟩

end Split

end TemplateTree
