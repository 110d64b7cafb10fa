import TemplateTree.Proofs.Tabs.Texts
import TemplateTree.Proofs.Written.Passing
import TemplateTree.Proofs.Written.Strings

/-!
# Values on lines with tabs

A value that a space ends is an expression, or a string or a symbol where one of these goes as far
as the expression does. On a line with tabs in place of spaces, a string and a symbol are read as
far as before. So the value is the same if its characters and the one after the expression are, and
it is another one if a tab goes on with the expression behind it.
-/

set_option autoImplicit false

namespace TemplateTree

open Text

namespace Pattern

/-- The pattern reads no more than there is. -/
def Within (p : Pattern) : Prop :=
  ∀ ⦃cs : List Char⦄ ⦃m : Match⦄, p cs = some m → m.length ≤ cs.length

section Within
variable {p q : Pattern}

theorem runLength_le (isIt : Char → Bool) (cs : List Char) : runLength isIt cs ≤ cs.length :=
  Nat.le.intro (runLength_add_length isIt cs)

theorem within_many (isIt : Char → Bool) : Within (many isIt) := by
  intro cs m hm
  rw [← Option.some.inj hm]
  exact runLength_le isIt cs

theorem within_some1 (isIt : Char → Bool) : Within (some1 isIt) := by
  intro cs m hm
  have hle := runLength_le isIt cs
  unfold some1 at hm
  split at hm
  · cases hm
  · rename_i n hn
    rw [hn] at hle
    rw [← Option.some.inj hm]
    exact hle

theorem within_char (c : Char) : Within (char c) := by
  intro cs m hm
  cases cs with
  | nil => cases hm
  | cons d cs =>
    rw [char, satisfy] at hm
    split at hm
    · rw [← Option.some.inj hm]
      exact Nat.succ_le_succ (Nat.zero_le _)
    · cases hm

theorem Within.captured (hp : Within p) : Within p.captured := by
  intro cs m hm
  obtain ⟨own, hown, rfl⟩ := Option.map_eq_some_iff.mp hm
  have hle := hp hown
  exact hle

theorem Within.andThen (hp : Within p) (hq : Within q) : Within (p.andThen q) := by
  intro cs m hm
  unfold Pattern.andThen at hm
  split at hm
  · cases hm
  · rename_i first hfirst
    split at hm
    · cases hm
    · rename_i second hsecond
      have hle := hp hfirst
      have hle' := hq hsecond
      rw [List.length_drop] at hle'
      rw [← Option.some.inj hm]
      dsimp only
      omega

theorem within_symbol : Within symbol := (within_char ':').andThen (within_some1 isWord).captured

theorem within_htmlName : Within htmlName := within_some1 isAttributeName

theorem within_htmlEquals : Within htmlEquals :=
  (within_many isBlank).andThen ((within_char '=').andThen (within_many isBlank))

theorem within_htmlSeparator : Within htmlSeparator := within_some1 isBlank

end Within

end Pattern

namespace Cursor

/-- A place in a line, and the same place where some of the spaces of the line are tabs. -/
structure Retabs (c c' : Cursor) : Prop where
  inside : c.Inside
  inside' : c'.Inside
  line : Retabbed c.line c'.line
  column : c'.column = c.column
  places : ∀ column, c'.positionAt column = c.positionAt column

namespace Retabs
variable {c c' : Cursor}

theorem refl (h : c.Inside) : c.Retabs c where
  inside := h
  inside' := h
  line := List.forall₂_same.mpr fun _ _ => Or.inl rfl
  column := rfl
  places _ := rfl

/-- A tab in place of one space. -/
theorem of_tab {before after : List Char} (h : c.Inside) (h' : c'.Inside)
    (hline : c.line = before ++ ' ' :: after) (hline' : c'.line = before ++ '\t' :: after)
    (hplace : (c'.column, c'.lineNumber, c'.lineOffset) = (c.column, c.lineNumber, c.lineOffset)) :
    c.Retabs c' := by
  obtain ⟨hcolumn, hplace⟩ := Prod.mk.inj hplace
  obtain ⟨hnumber, hoffset⟩ := Prod.mk.inj hplace
  refine ⟨h, h', ?_, hcolumn, fun column => ?_⟩
  · rw [hline, hline']
    exact retabbed_tab before after
  · unfold positionAt
    rw [hnumber, hoffset]

theorem rest (h : c.Retabs c') : Retabbed c.rest c'.rest := by
  obtain ⟨n, hn, -, hrest⟩ := exists_rest h.inside
  obtain ⟨n', hn', -, hrest'⟩ := exists_rest h.inside'
  obtain rfl : n' = n := by
    have hcolumn := h.column
    omega
  rw [hrest, hrest']
  exact List.forall₂_drop n' h.line

theorem skip (h : c.Retabs c') (n : Nat) : (c.skip n).Retabs (c'.skip n) where
  inside := (onward_skip h.inside n).inside
  inside' := (onward_skip h.inside' n).inside
  line := h.line
  column := by
    unfold Cursor.skip
    rw [h.column, h.line.length_eq]
  places := h.places

theorem position (h : c.Retabs c') : c'.position = c.position := by
  unfold Cursor.position
  rw [h.column]
  exact h.places _

theorem length_rest (h : c.Retabs c') : c'.rest.length = c.rest.length := h.rest.length_eq.symm

end Retabs

end Cursor

namespace Node

theorem ofPart_retabs {c c' : Cursor} (h : c.Retabs c') : ofPart c' = ofPart c := by
  funext p
  cases p <;> simp only [ofPart, h.places]

theorem ofParts_retabs {c c' stopped stopped' : Cursor} (h : c.Retabs c')
    (hstopped : stopped.Retabs stopped') (parts : List Part) :
    ofParts c' stopped' parts = ofParts c stopped parts := by
  unfold ofParts
  rw [ofPart_retabs h, hstopped.position, h.position]

end Node

namespace Production
variable {r r' : Reading}

/-- A production that is tried on both lines: it is refused on both, or it reads as many characters
on both, and then the same if the characters are the same. -/
inductive Tried (p : Production Node) (r r' : Reading) : Prop where
  | refused {e e' : SyntaxError} {s s' : Reading} (run : p.run r = (.error (.refused e), s))
      (run' : p.run r' = (.error (.refused e'), s')) : Tried p r r'
  | read {n n' : Node} {k : Nat} (le : k ≤ r.cursor.rest.length)
      (run : p.run r = (.ok n, r.skip k)) (run' : p.run r' = (.ok n', r'.skip k))
      (kind : n.kind ≠ .insert) (kind' : n'.kind ≠ .insert)
      (same : r'.cursor.rest.take k = r.cursor.rest.take k → n' = n) : Tried p r r'

theorem tried_symbol (h : r.cursor.Retabs r'.cursor) : Tried symbol r r' := by
  have hown := run_symbol_eq h.inside
  have hother := run_symbol_eq h.inside'
  rw [Pattern.symbol_retabbed h.rest] at hother
  cases hm : Pattern.symbol r.cursor.rest with
  | none =>
    rw [hm] at hown hother
    exact .refused hown hother
  | some m =>
    rw [hm] at hown hother
    refine .read (Pattern.within_symbol hm) hown hother (fun hkind => by cases hkind)
      (fun hkind => by cases hkind) fun _ => ?_
    rw [h.position]

theorem tried_quotedString (h : r.cursor.Retabs r'.cursor) :
    Tried (interpolatedString .quoted) r r' := by
  by_cases hhead : r.cursor.rest.head? = some '"'
  · obtain ⟨rest, hrest⟩ := List.head?_eq_some_iff.mp hhead
    obtain ⟨rest', hrest'⟩ :=
      List.head?_eq_some_iff.mp ((h.rest.head?_eq_iff (by decide) (by decide)).mpr hhead)
    have ht : (r.skip 1).cursor.Retabs (r'.skip 1).cursor := h.skip 1
    have hown := run_quotedString h.inside hrest
    have hother := run_quotedString h.inside' hrest'
    obtain ⟨n, hn, hstop, -⟩ :=
      Part.write_read .quoted (r.skip 1).cursor.column (r.skip 1).cursor.rest
    obtain ⟨hstop', hparts⟩ := Part.read_quoted_retabbed (r.skip 1).cursor.column ht.rest
    rw [hstop] at hstop' hparts
    rw [run_stringBody_eq ht.inside .quoted hstop] at hown
    rw [run_stringBody_eq ht.inside' .quoted (ht.column ▸ hstop')] at hother
    have hu := ht.skip n
    -- the closing quote is no space, so both strings are closed or none
    have hends : Quoting.quoted.Ends ((r'.skip 1).skip n).cursor.rest ↔
        Quoting.quoted.Ends ((r.skip 1).skip n).cursor.rest :=
      hu.rest.head?_eq_iff (by decide) (by decide)
    by_cases hend : Quoting.quoted.Ends ((r.skip 1).skip n).cursor.rest
    · rw [run_bind, run_stringEnd hu.inside hend, Reading.skip_skip, Reading.skip_skip] at hown
      rw [run_bind, run_stringEnd hu.inside' (hends.mpr hend), Reading.skip_skip, Reading.skip_skip]
        at hother
      refine .read ?_ hown hother nofun nofun fun htake => ?_
      · obtain ⟨after, hafter⟩ := List.head?_eq_some_iff.mp hend
        have hlength := congrArg List.length hafter
        rw [Reading.rest_skip ht.inside, Reading.rest_skip h.inside, List.length_drop,
          List.length_drop, List.length_cons] at hlength
        change 1 + n + 1 ≤ _
        omega
      · have htake' : (r'.skip 1).cursor.rest.take n = (r.skip 1).cursor.rest.take n := by
          rw [Reading.rest_skip h.inside, Reading.rest_skip h.inside']
          have hinner := (take_eq_and_drop (n := 1) (by omega) htake).2
          exact (take_eq_and_drop (by change n ≤ 1 + n + 1 - 1; omega) hinner).1
        rw [ht.column, hparts n rfl htake']
        exact Node.ofParts_retabs ht (h.skip _) _
    · obtain ⟨e, he⟩ := run_stringEnd_refused hu.inside hend
      obtain ⟨e', he'⟩ := run_stringEnd_refused hu.inside' (mt hends.mp hend)
      rw [run_bind, he] at hown
      rw [run_bind, he'] at hother
      exact .refused hown hother
  · have hhead' := mt (h.rest.head?_eq_iff (by decide) (by decide)).mp hhead
    obtain ⟨e, hown⟩ := run_quotedString_refused h.inside hhead
    obtain ⟨e', hother⟩ := run_quotedString_refused h.inside' hhead'
    exact .refused hown hother

theorem tried_literal {text : List Char} {p : Production Node} (hp : literal? text = some p)
    (h : r.cursor.Retabs r'.cursor) : Tried p r r' := by
  unfold literal? at hp
  split at hp
  · rw [← Option.some.inj hp]
    exact tried_quotedString h
  · rw [← Option.some.inj hp]
    exact tried_symbol h
  · cases hp

/-- The first character tells what an expression might be. -/
theorem literal?_eq_of_head? {cs ds : List Char} (h : ds.head? = cs.head?) :
    literal? ds = literal? cs := by
  cases cs with
  | nil => rw [List.head?_eq_none_iff.mp h]
  | cons c cs =>
    obtain ⟨ds, rfl⟩ := List.head?_eq_some_iff.mp h
    unfold literal?
    split <;> split <;> simp_all

/-- The string or the symbol that a value might be, and how far it goes. -/
inductive LiteralAt (r : Reading) : Option (Node × Nat) → Prop where
  | absent (starts : literal? r.cursor.rest = none) : LiteralAt r none
  | refused {p : Production Node} {e : SyntaxError} {s : Reading}
      (starts : literal? r.cursor.rest = some p) (run : p.run r = (.error (.refused e), s)) :
      LiteralAt r none
  | read {p : Production Node} {n : Node} {k : Nat} (starts : literal? r.cursor.rest = some p)
      (le : k ≤ r.cursor.rest.length) (run : p.run r = (.ok n, r.skip k))
      (kind : n.kind ≠ .insert) : LiteralAt r (some (n, k))

/-- What is read as a value whose expression goes as far as `m`, and how far it goes itself. -/
def valueOf (r : Reading) (m : Nat) : Option (Node × Nat) → Node × Nat
  | some (n, k) =>
    if m ≤ k then (n, k) else (.ofExpression (r.cursor.rest.take m) r.cursor.position, m)
  | none => (.ofExpression (r.cursor.rest.take m) r.cursor.position, m)

section Values
variable {found found' : Option (Node × Nat)} {delimiters : List Char} {m : Nat}

theorem run_attributeExpression (h : r.cursor.Inside) (hfound : LiteralAt r found)
    (hscan : Scan.expression delimiters r.cursor.rest = some m) :
    ∃ s, (attributeExpression delimiters).run r = (.ok (valueOf r m found).1, s) ∧
      s.cursor = (r.skip (valueOf r m found).2).cursor := by
  have hpos := (Scan.expression_pos hscan).1
  have hle := Scan.le_length_of_expression hscan
  have hstart : literal? (r.cursor.rest.take m) = literal? r.cursor.rest := by
    refine literal?_eq_of_head? ?_
    rw [List.head?_take, if_neg (by omega)]
  cases hfound with
  | absent starts => exact ⟨_, run_attributeExpression_plain h hscan (hstart.trans starts), rfl⟩
  | @refused p e s starts run =>
    have hspeculate : (speculate p).run r =
        (.ok none, { s with log := s.log ++ [.speculationFailed e.line e.message] }) := by
      unfold speculate attempt
      rw [run_bind, ExceptT.run_mk, run]
      rfl
    refine ⟨{ s with
      cursor := (r.skip m).cursor, log := s.log ++ [.speculationFailed e.line e.message] }, ?_, rfl⟩
    unfold attributeExpression
    rw [run_cursor_bind, run_bind, run_expression h hscan]
    dsimp only
    rw [hstart, starts]
    change (speculate p >>= fun result => _).run r = _
    rw [run_bind, hspeculate]
    rfl
  | @read p n k starts le run kind =>
    have hrun := run_attributeExpression_literal h hscan (hstart.trans starts) run hle le
    by_cases hmk : m ≤ k
    · rw [if_pos hmk] at hrun
      simp only [valueOf, if_pos hmk]
      exact ⟨_, hrun, rfl⟩
    · rw [if_neg hmk] at hrun
      simp only [valueOf, if_neg hmk]
      exact ⟨_, hrun, rfl⟩

theorem run_attributeExpression_none (h : r.cursor.Inside)
    (hscan : Scan.expression delimiters r.cursor.rest = none) :
    ∃ e, (attributeExpression delimiters).run r = (.error e, r) := by
  refine ⟨.refused (r.cursor.error (.unexpected r.cursor.rest.head? .expression)), ?_⟩
  have hexpression : (expression delimiters).run r =
      (.error (.refused (r.cursor.error (.unexpected r.cursor.rest.head? .expression))), r) := by
    unfold expression
    rw [run_cursor_bind, Cursor.expressionAt_eq h, hscan]
    exact run_expected h _
  unfold attributeExpression
  rw [run_cursor_bind, run_bind, hexpression]

theorem LiteralAt.kind {n : Node} {k : Nat} (h : LiteralAt r (some (n, k))) : n.kind ≠ .insert := by
  cases h with
  | read starts le run kind => exact kind

/-- One literal at most is tried, and it is tried in one way. -/
theorem LiteralAt.unique (h : r.cursor.Inside) (hfound : LiteralAt r found)
    (hfound' : LiteralAt r found') : found = found' := by
  cases hfound with
  | absent starts =>
    cases hfound' with
    | absent | refused => rfl
    | read starts' => cases starts.symm.trans starts'
  | refused starts run =>
    cases hfound' with
    | absent | refused => rfl
    | read starts' le run' kind =>
      obtain rfl := Option.some.inj (starts.symm.trans starts')
      cases run.symm.trans run'
  | @read p n k starts le run kind =>
    cases hfound' with
    | absent starts' => cases starts.symm.trans starts'
    | refused starts' run' =>
      obtain rfl := Option.some.inj (starts.symm.trans starts')
      cases run.symm.trans run'
    | @read p' n' k' starts' le' run' kind' =>
      obtain rfl := Option.some.inj (starts.symm.trans starts')
      obtain ⟨hn, hskip⟩ := Prod.mk.inj (run.symm.trans run')
      have hcolumn := congrArg (·.cursor.column) hskip
      have hk : (r.skip k).cursor.column = r.cursor.column + k := Cursor.column_skip h le
      have hk' : (r.skip k').cursor.column = r.cursor.column + k' := Cursor.column_skip h le'
      obtain rfl : k = k' := by omega
      rw [Except.ok.inj hn]

/-- What a value might be goes as far on both lines, and it is the same if its characters are. -/
def SameLiteral (r r' : Reading) : Option (Node × Nat) → Option (Node × Nat) → Prop :=
  Option.Rel fun x y =>
    y.2 = x.2 ∧ (r'.cursor.rest.take x.2 = r.cursor.rest.take x.2 → y.1 = x.1)

theorem exists_literalAt (h : r.cursor.Retabs r'.cursor)
    (hhead : r'.cursor.rest.head? = r.cursor.rest.head?) :
    ∃ found found', LiteralAt r found ∧ LiteralAt r' found' ∧ SameLiteral r r' found found' := by
  have hstart := literal?_eq_of_head? hhead
  cases hp : literal? r.cursor.rest with
  | none =>
    rw [hp] at hstart
    exact ⟨none, none, .absent hp, .absent hstart, .none⟩
  | some p =>
    rw [hp] at hstart
    cases tried_literal hp h with
    | refused run run' => exact ⟨none, none, .refused hp run, .refused hstart run', .none⟩
    | @read n n' k le run run' kind kind' same =>
      exact ⟨some (n, k), some (n', k), .read hp le run kind,
        .read hstart (h.length_rest ▸ le) run' kind', .some ⟨rfl, same⟩⟩

theorem valueOf_le (hfound : LiteralAt r found) (hm : m ≤ r.cursor.rest.length) :
    (valueOf r m found).2 ≤ r.cursor.rest.length := by
  cases hfound with
  | absent | refused => exact hm
  | @read p n k starts le run kind =>
    by_cases hmk : m ≤ k
    · simpa only [valueOf, if_pos hmk] using le
    · simpa only [valueOf, if_neg hmk] using hm

theorem le_valueOf : m ≤ (valueOf r m found).2 := by
  rcases found with _ | ⟨n, k⟩
  · exact Nat.le_refl m
  · by_cases hmk : m ≤ k
    · simpa only [valueOf, if_pos hmk] using hmk
    · simp only [valueOf, if_neg hmk, Nat.le_refl]

/-- A value whose expression goes as far is the same if its characters are. -/
theorem valueOf_retabs (h : r.cursor.Retabs r'.cursor) (hsame : SameLiteral r r' found found')
    (htake : r'.cursor.rest.take (valueOf r m found).2 =
      r.cursor.rest.take (valueOf r m found).2) : valueOf r' m found' = valueOf r m found := by
  have hexpression := (take_eq_and_drop le_valueOf htake).1
  cases hsame with
  | none => simp only [valueOf, hexpression, h.position]
  | @some x y hxy =>
    obtain ⟨n, k⟩ := x
    obtain ⟨n', k'⟩ := y
    obtain ⟨rfl, hnode⟩ := hxy
    by_cases hmk : m ≤ k'
    · simp only [valueOf, if_pos hmk] at htake ⊢
      rw [show n' = n from hnode htake]
    · simp only [valueOf, if_neg hmk, hexpression, h.position]

/-- A value whose expression goes further than the value went is another one, wherever it is. -/
theorem valueOf_ne {m' : Nat} (hfound : LiteralAt r found)
    (hsame : SameLiteral r r' found found') (hlonger : (valueOf r m found).2 < m')
    (hle : m' ≤ r'.cursor.rest.length) (f : Position → Position) :
    (valueOf r' m' found').1.relocate f ≠ (valueOf r m found).1.relocate f := by
  have hm : m < m' := Nat.lt_of_le_of_lt le_valueOf hlonger
  have hinserts : (Node.ofExpression (r'.cursor.rest.take m') r'.cursor.position).relocate f ≠
      (Node.ofExpression (r.cursor.rest.take m) r.cursor.position).relocate f := by
    intro heq
    simp only [Node.ofExpression, Node.relocate, Node.insert.injEq, Value.str.injEq,
      Str.chars.injEq] at heq
    have hlength := congrArg (List.length ∘ String.toList) heq.1
    simp only [Function.comp, String.toList_ofList, List.length_take_of_le hle] at hlength
    have := List.length_take_le m r.cursor.rest
    omega
  cases hsame with
  | none => exact hinserts
  | @some x y hxy =>
    obtain ⟨n, k⟩ := x
    obtain ⟨n', k'⟩ := y
    obtain ⟨rfl, -⟩ := hxy
    by_cases hmk : m ≤ k'
    · have hshort : k' < m' := by simpa only [valueOf, if_pos hmk] using hlonger
      simp only [valueOf, if_pos hmk, if_neg (Nat.not_le_of_lt hshort)]
      -- an insert in place of a string or a symbol
      intro heq
      have hkind := congrArg Node.kind heq
      rw [Node.kind_relocate, Node.kind_relocate] at hkind
      exact hfound.kind hkind.symm
    · simp only [valueOf, if_neg hmk, if_neg (show ¬ m' ≤ k' by omega)]
      exact hinserts

end Values

end Production

end TemplateTree
