import TemplateTree.Proofs.Scans.Expressions

/-!
# Texts that leave something open

Text that is read as an expression is read may end in a string or in a group. A character that means
nothing and what is due then make an expression of it, so a scan goes beyond the text when that
follows. A scan does not go beyond a text that leaves nothing open when something stops it there.
-/

set_option autoImplicit false

namespace TemplateTree

namespace Scan
variable {delimiters closers cs text rest : List Char} {d : Char}

/-- Read as expressions are read, the text ends in a string or in a group. -/
def LeavesOpen (delimiters text : List Char) : Prop :=
  ∃ closers before quote str, Scanned delimiters closers before ∧ Begun quote str ∧
    text = before ++ str ∧ (closers = [] → quote ≠ none)

/-- The brackets that are due make an expression of a text that leaves them open. -/
theorem Scanned.isExpression (h : Scanned delimiters closers cs) (hne : closers ≠ []) :
    IsExpression delimiters (cs ++ closers) := by
  induction closers generalizing cs with
  | nil => exact absurd rfl hne
  | cons closer closers ih =>
    obtain ⟨outer, group, houter, hitem, hnested, hspace, heq⟩ := h.closes
    rw [List.append_cons, heq]
    cases closers with
    | nil =>
      rw [List.append_nil]
      exact .intro houter.items hitem hspace
    | cons next closers =>
      have hopen : ¬ next :: closers = [] := List.cons_ne_nil _ _
      exact ih (houter.append (fun hnil => absurd hnil hopen) hnested) hopen

/-- A character that means nothing, and then what is due, make an expression of it. -/
theorem LeavesOpen.isExpression (h : LeavesOpen delimiters text) (hd : IsPlain d) :
    ∃ closing, IsExpression delimiters (text ++ d :: closing) := by
  obtain ⟨closers, before, quote, str, hscanned, hbegun, rfl, hopen⟩ := h
  cases hbegun with
  | none =>
    have hne : closers ≠ [] := fun hnil => hopen hnil rfl
    refine ⟨closers, ?_⟩
    rw [List.append_nil, List.append_cons]
    exact (hscanned.append (fun hnil => absurd hnil hne) (.of_char hd)).isExpression hne
  | @string quote inside opens hinside =>
    have hquote : d ≠ quote := by
      rintro rfl
      exact absurd opens (by simp [hd.quote])
    have hstring := IsString.intro opens (hinside.append (.plain hquote hd.backslash .nil))
    refine ⟨quote :: closers, ?_⟩
    have hsplit : before ++ quote :: inside ++ d :: quote :: closers =
        before ++ quote :: (inside ++ [d] ++ [quote]) ++ closers := by simp
    rw [hsplit]
    cases closers with
    | nil =>
      rw [List.append_nil]
      exact .intro hscanned.items (.string hstring) (by simp)
    | cons closer closers =>
      have hne : ¬ closer :: closers = [] := List.cons_ne_nil _ _
      exact (hscanned.append (fun hnil => absurd hnil hne) (.of_string hstring)).isExpression hne

theorem StopsAt.le_length {stop : Nat} (h : StopsAt delimiters cs stop) : stop ≤ cs.length := by
  rcases h with rfl | ⟨hle, -⟩
  · exact Nat.zero_le _
  · exact hle

/-- A scan does not leave a text that leaves nothing open, when something behind it stops scans. -/
theorem Reach.After.expressionEnd_le {r : Reach} (h : r.After delimiters cs)
    (hclosed : ¬ LeavesOpen delimiters (cs ++ text)) (hlast : (cs ++ text).getLast? ≠ some '\\')
    (spaces : Nat) (hrest : ∀ c ∈ rest.head?, Stops delimiters c) :
    expressionEnd delimiters r (text ++ (List.replicate spaces ' ' ++ rest)) ≤
      (cs ++ text).length := by
  induction hn : text.length using Nat.strongRecOn generalizing r cs text with
  | ind n ih =>
    cases text with
    | nil =>
      rw [List.append_nil] at hclosed
      obtain ⟨before, str, hscanned, hbegun, heq⟩ := h.scanned
      obtain ⟨hclosers, hquote⟩ : r.closers = [] ∧ r.quote = none :=
        Decidable.byContradiction fun hopen =>
          hclosed ⟨_, before, _, str, hscanned, hbegun, heq, fun hc hq => hopen ⟨hc, hq⟩⟩
      have hle := h.stop.le_length
      obtain ⟨closers, quote, read, stop⟩ := r
      obtain rfl : closers = [] := hclosers
      obtain rfl : quote = none := hquote
      rwa [List.nil_append, List.append_nil, expressionEnd_stops spaces hrest]
    | cons c others =>
      rw [List.cons_append]
      rcases h.next c (others ++ (List.replicate spaces ' ' ++ rest)) with
        hstop | ⟨passed, rest', r', hstep, heq, hend, hafter⟩
      · rw [hstop, List.length_append]
        exact Nat.le_add_right_of_le h.stop.le_length
      rw [hend]
      cases hstep with
      | char =>
        obtain ⟨rfl, rfl⟩ := List.cons.inj heq
        rw [List.append_cons cs c others] at hclosed hlast ⊢
        exact ih others.length (by rw [← hn]; exact Nat.lt_succ_self _) hafter hclosed hlast rfl
      | escaped d =>
        obtain ⟨rfl, hothers⟩ := List.cons.inj heq
        cases others with
        | nil => exact absurd (by simp) hlast
        | cons e others =>
          obtain ⟨rfl, rfl⟩ := List.cons.inj hothers
          have hsplit : cs ++ '\\' :: e :: others = cs ++ ['\\', e] ++ others := by simp
          rw [hsplit] at hclosed hlast ⊢
          refine ih others.length ?_ hafter hclosed hlast rfl
          rw [← hn, List.length_cons, List.length_cons]
          omega

/-- An expression leaves nothing open. -/
theorem IsExpression.closed (h : IsExpression delimiters text) (hd : IsPlain d)
    (hdelimiter : d ∈ delimiters) : ¬ LeavesOpen delimiters text := by
  intro hopen
  obtain ⟨closing, hexpression⟩ := hopen.isExpression hd
  have hlong := length_le_expressionEnd hexpression []
  have hstop : expressionEnd delimiters .start (text ++ d :: closing) = text.length := by
    rw [expressionEnd_expression h]
    exact expressionEnd_stops 0 fun c hc => by
      obtain rfl := Option.some.inj hc
      exact ⟨hd.quote, hd.opener, Or.inr hdelimiter⟩
  rw [List.append_nil, hstop, List.length_append, List.length_cons] at hlong
  omega

end Scan

end TemplateTree
