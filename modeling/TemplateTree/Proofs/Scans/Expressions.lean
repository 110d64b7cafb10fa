import Mathlib.Order.Bounds.Defs
import TemplateTree.Proofs.Scans.Balanced
import TemplateTree.Scan.Index

/-!
# How far expressions reach

An expression is a sequence of items: whole strings, whole groups, and single characters that stand
outside of every group. Its last item is no space. A scan ends at the longest prefix that is one.

The scan keeps a stack of the brackets that are due, so what it has read is a sequence of items and
after it, for every bracket that is due, one that is open with balanced text behind it (`Scanned`).
-/

set_option autoImplicit false

namespace TemplateTree.Scan

/-- A character that means nothing to a scan for expressions. -/
structure IsPlain (c : Char) : Prop where
  quote : isQuote c = false
  opener : closer? c = none
  closer : isCloser c = false
  backslash : c ≠ '\\'

/-- What may stand between the brackets of a group. -/
abbrev Nested : List Char → Prop := Balanced closer? IsPlain

inductive Item (delimiters : List Char) : List Char → Prop where
  | string {s : List Char} (whole : IsString s) : Item delimiters s
  | group {c closer : Char} {inside : List Char} (opens : closer? c = some closer)
      (within : Nested inside) : Item delimiters (c :: (inside ++ [closer]))
  | char {c : Char} (isPlain : IsPlain c) (inner : c ∉ delimiters) : Item delimiters [c]

inductive Items (delimiters : List Char) : List Char → Prop where
  | nil : Items delimiters []
  | concat {cs item : List Char} (before : Items delimiters cs) (last : Item delimiters item) :
      Items delimiters (cs ++ item)

/-- A sequence of items that does not end in a space. -/
inductive IsExpression (delimiters : List Char) : List Char → Prop where
  | intro {cs item : List Char} (before : Items delimiters cs) (last : Item delimiters item)
      (ne_space : item ≠ [' ']) : IsExpression delimiters (cs ++ item)

theorem Item.ne_nil {delimiters item : List Char} (h : Item delimiters item) : item ≠ [] := by
  cases h with
  | string whole => cases whole; exact List.cons_ne_nil _ _
  | group => exact List.cons_ne_nil _ _
  | char => exact List.cons_ne_nil _ _

theorem IsExpression.ne_nil {delimiters cs : List Char} (h : IsExpression delimiters cs) :
    cs ≠ [] := by
  cases h with
  | intro _ last => exact List.append_ne_nil_of_right_ne_nil _ last.ne_nil

theorem IsString.ne_space {s : List Char} (h : IsString s) : s ≠ [' '] := by
  rintro rfl
  generalize hs : [' '] = s at h
  cases h
  simp at hs

theorem IsString.isExpression {delimiters s : List Char} (h : IsString s) :
    IsExpression delimiters s :=
  .intro .nil (.string h) h.ne_space

section Brackets
variable {c closer : Char}

theorem closer?_eq_some (h : closer? c = some closer) :
    c = '(' ∧ closer = ')' ∨ c = '\x7b' ∧ closer = '\x7d' ∨ c = '[' ∧ closer = ']' := by
  unfold closer? at h
  grind

theorem not_isQuote_of_closer? (h : closer? c = some closer) :
    isQuote c = false ∧ isQuote closer = false ∧ closer? closer = none ∧ isCloser closer := by
  rcases closer?_eq_some h with ⟨rfl, rfl⟩ | ⟨rfl, rfl⟩ | ⟨rfl, rfl⟩ <;> decide

theorem eq_of_isCloser (h : isCloser c) : c = ')' ∨ c = '\x7d' ∨ c = ']' := by
  simpa [isCloser, or_assoc] using h

theorem isPlain_of_passed (hquote : ¬ isQuote c = true) (hopener : closer? c = none)
    (hcloser : ¬ isCloser c = true) (hbackslash : ¬ (c == '\\') = true) : IsPlain c :=
  ⟨by simpa using hquote, hopener, by simpa using hcloser, by simpa using hbackslash⟩

/-- A character that was passed over is an item when no group is open. -/
theorem item_of_passed {delimiters closers : List Char} (hplain : IsPlain c)
    (hdelimiter : ¬ (closers.isEmpty && delimiters.contains c) = true) (hnil : closers = []) :
    Item delimiters [c] :=
  .char hplain (by simpa [hnil] using hdelimiter)

end Brackets

/-- So many characters more, up to which the expression reaches when no group is open. -/
def Reach.upTo (r : Reach) (count : Nat) : Reach :=
  { r with read := r.read + count, stop := if r.closers.isEmpty then r.read + count else r.stop }

theorem Reach.upTo_congr {closers : List Char} {quote : Option Char} {read read' stop m n : Nat}
    (h : read + m = read' + n) :
    upTo ⟨closers, quote, read, stop⟩ m = upTo ⟨closers, quote, read', stop⟩ n := by
  simp only [upTo, h]

section Steps
variable {delimiters closers rest : List Char} {quote c closer : Char} {read stop : Nat}

theorem expressionEnd_escaped :
    expressionEnd delimiters ⟨closers, some quote, read, stop⟩ ('\\' :: c :: rest) =
      expressionEnd delimiters ⟨closers, some quote, read + 2, stop⟩ rest := by
  rw [expressionEnd.eq_def]
  rfl

theorem expressionEnd_inside (hquote : c ≠ quote) (hbackslash : c ≠ '\\') :
    expressionEnd delimiters ⟨closers, some quote, read, stop⟩ (c :: rest) =
      expressionEnd delimiters ⟨closers, some quote, read + 1, stop⟩ rest := by
  rw [expressionEnd.eq_def]
  simp [hquote, hbackslash, Reach.pass]

theorem expressionEnd_endQuote (hbackslash : quote ≠ '\\') :
    expressionEnd delimiters ⟨closers, some quote, read, stop⟩ (quote :: rest) =
      expressionEnd delimiters (Reach.upTo ⟨closers, none, read, stop⟩ 1) rest := by
  rw [expressionEnd.eq_def]
  simp [hbackslash, Reach.take, Reach.upTo]

theorem expressionEnd_quote (h : isQuote c) :
    expressionEnd delimiters ⟨closers, none, read, stop⟩ (c :: rest) =
      expressionEnd delimiters ⟨closers, some c, read + 1, stop⟩ rest := by
  rw [expressionEnd.eq_def]
  simp [h, Reach.pass]

theorem expressionEnd_opener (h : closer? c = some closer) :
    expressionEnd delimiters ⟨closers, none, read, stop⟩ (c :: rest) =
      expressionEnd delimiters ⟨closer :: closers, none, read + 1, stop⟩ rest := by
  rw [expressionEnd.eq_def]
  simp [h, (not_isQuote_of_closer? h).1, Reach.pass]

theorem expressionEnd_closer (h : closer? c = some closer) :
    expressionEnd delimiters ⟨closer :: closers, none, read, stop⟩ (closer :: rest) =
      expressionEnd delimiters (Reach.upTo ⟨closers, none, read, stop⟩ 1) rest := by
  obtain ⟨-, hquote, hopener, hcloser⟩ := not_isQuote_of_closer? h
  rw [expressionEnd.eq_def]
  simp [hquote, hopener, hcloser, Reach.take, Reach.upTo]

theorem expressionEnd_plain (h : IsPlain c) (hinner : closers = [] → c ∉ delimiters) :
    expressionEnd delimiters ⟨closers, none, read, stop⟩ (c :: rest) =
      expressionEnd delimiters
        (if c = ' ' then ⟨closers, none, read + 1, stop⟩
          else Reach.upTo ⟨closers, none, read, stop⟩ 1) rest := by
  have hdelimiter : (closers.isEmpty && delimiters.contains c) = false := by
    cases closers with
    | nil => simpa using hinner rfl
    | cons => rfl
  rw [expressionEnd.eq_def]
  simp only [h.quote, h.opener, h.closer, h.backslash, hdelimiter, Reach.take, Reach.upTo,
    Reach.pass, beq_iff_eq, Bool.false_eq_true, if_false]
  split <;> rfl

end Steps

section Completeness
variable {delimiters closers cs rest : List Char} {quote closer : Char} {read stop : Nat}

/-- The inside of a string is passed over. -/
theorem expressionEnd_protected (h : Protected quote cs) :
    expressionEnd delimiters ⟨closers, some quote, read, stop⟩ (cs ++ rest) =
      expressionEnd delimiters ⟨closers, some quote, read + cs.length, stop⟩ rest := by
  induction h generalizing read with
  | nil => rfl
  | escaped c _ ih =>
    rw [List.cons_append, List.cons_append, expressionEnd_escaped, ih]
    congr 2
    simp only [List.length_cons]
    omega
  | plain hquote hbackslash _ ih =>
    rw [List.cons_append, expressionEnd_inside hquote hbackslash, ih]
    congr 2
    simp only [List.length_cons]
    omega

theorem expressionEnd_string (h : IsString cs) :
    expressionEnd delimiters ⟨closers, none, read, stop⟩ (cs ++ rest) =
      expressionEnd delimiters (Reach.upTo ⟨closers, none, read, stop⟩ cs.length) rest := by
  cases h with
  | @intro quote inside opens hinside =>
    rw [List.cons_append, List.append_assoc, List.singleton_append, expressionEnd_quote opens,
      expressionEnd_protected hinside, expressionEnd_endQuote (ne_backslash_of_isQuote opens)]
    congr 1
    apply Reach.upTo_congr
    simp only [List.length_cons, List.length_append, List.length_nil]
    omega

/-- Balanced text in a group is passed over. -/
theorem expressionEnd_nested (h : Nested cs) :
    expressionEnd delimiters ⟨closer :: closers, none, read, stop⟩ (cs ++ rest) =
      expressionEnd delimiters ⟨closer :: closers, none, read + cs.length, stop⟩ rest := by
  induction h generalizing closer closers read rest with
  | nil => rfl
  | string whole _ ih =>
    rw [List.append_assoc, expressionEnd_string whole]
    refine ih.trans ?_
    rw [List.length_append, Nat.add_assoc]
  | @group c inner inside cs opens _ _ ihinside ih =>
    have hsplit : c :: (inside ++ inner :: cs) ++ rest =
        c :: (inside ++ inner :: (cs ++ rest)) := by simp
    rw [hsplit, expressionEnd_opener opens, ihinside, expressionEnd_closer opens]
    refine ih.trans ?_
    congr 2
    simp only [List.length_cons, List.length_append]
    omega
  | char isPlain _ ih =>
    have hopen : ¬ closer :: closers = [] := List.cons_ne_nil _ _
    rw [List.cons_append, expressionEnd_plain isPlain fun h => absurd h hopen]
    have hsame : Reach.upTo ⟨closer :: closers, none, read, stop⟩ 1 =
      ⟨closer :: closers, none, read + 1, stop⟩ := rfl
    rw [hsame, ite_self, ih, List.length_cons, Nat.add_assoc, Nat.add_comm 1]

theorem expressionEnd_item (h : Item delimiters cs) :
    expressionEnd delimiters ⟨[], none, read, stop⟩ (cs ++ rest) =
      expressionEnd delimiters
        ⟨[], none, read + cs.length, if cs = [' '] then stop else read + cs.length⟩ rest := by
  cases h with
  | string whole =>
    rw [expressionEnd_string whole, if_neg whole.ne_space]
    rfl
  | @group c closer inside opens within =>
    have hne : c :: (inside ++ [closer]) ≠ [' '] := by simp
    rw [List.cons_append, List.append_assoc, List.singleton_append, expressionEnd_opener opens,
      expressionEnd_nested within, expressionEnd_closer opens, if_neg hne]
    congr 1
    simp only [Reach.upTo, List.isEmpty_nil, if_true, List.length_cons, List.length_append,
      List.length_nil]
    congr 1 <;> omega
  | @char c isPlain inner =>
    rw [List.singleton_append, expressionEnd_plain isPlain fun _ => inner]
    by_cases hspace : c = ' '
    · rw [if_pos hspace, if_pos (by rw [hspace])]
      rfl
    · rw [if_neg hspace, if_neg (by simpa using hspace)]
      rfl

theorem expressionEnd_items (h : Items delimiters cs) (hstop : stop ≤ read) (rest : List Char) :
    ∃ stop' ≤ read + cs.length, expressionEnd delimiters ⟨[], none, read, stop⟩ (cs ++ rest) =
      expressionEnd delimiters ⟨[], none, read + cs.length, stop'⟩ rest := by
  induction h generalizing rest with
  | nil => exact ⟨stop, hstop, rfl⟩
  | @concat cs item _ last ih =>
    obtain ⟨between, hle, heq⟩ := ih (item ++ rest)
    rw [List.append_assoc, heq, expressionEnd_item last, List.length_append, ← Nat.add_assoc]
    refine ⟨_, ?_, rfl⟩
    split <;> omega

/-- Reading on never gives up what was an expression. -/
theorem stop_le_expressionEnd (r : Reach) (text : List Char) (h : r.stop ≤ r.read) :
    r.stop ≤ expressionEnd delimiters r text := by
  fun_induction expressionEnd delimiters r text <;>
    grind [Reach.take, Reach.pass]

theorem expressionEnd_expression (h : IsExpression delimiters cs) (rest : List Char) :
    expressionEnd delimiters .start (cs ++ rest) =
      expressionEnd delimiters ⟨[], none, cs.length, cs.length⟩ rest := by
  cases h with
  | @intro cs item before last ne_space =>
    obtain ⟨stop, -, heq⟩ := expressionEnd_items before (Nat.le_refl 0) (item ++ rest)
    rw [List.append_assoc, Reach.start, heq, expressionEnd_item last, if_neg ne_space, Nat.zero_add,
      ← List.length_append]

theorem length_le_expressionEnd (h : IsExpression delimiters cs) (rest : List Char) :
    cs.length ≤ expressionEnd delimiters .start (cs ++ rest) := by
  rw [expressionEnd_expression h]
  exact stop_le_expressionEnd ⟨[], none, _, _⟩ rest (Nat.le_refl _)

/-- A delimiter, or a bracket that closes nothing. -/
structure Stops (delimiters : List Char) (c : Char) : Prop where
  quote : isQuote c = false
  opener : closer? c = none
  stops : isCloser c ∨ c ∈ delimiters

/-- Outside of every group a scan ends here, with the spaces before it left out. -/
theorem expressionEnd_stops (spaces : Nat) (hrest : ∀ c ∈ rest.head?, Stops delimiters c) :
    expressionEnd delimiters ⟨[], none, read, stop⟩ (List.replicate spaces ' ' ++ rest) = stop := by
  induction spaces generalizing read with
  | zero =>
    cases rest with
    | nil => rfl
    | cons c rest =>
      obtain ⟨hquote, hopener, hstops⟩ := hrest c rfl
      rw [List.replicate_zero, List.nil_append, expressionEnd.eq_def]
      rcases hstops with hcloser | hdelimiter
      · simp [hquote, hopener, hcloser]
      · simp [hquote, hopener, hdelimiter]
  | succ spaces ih =>
    rw [List.replicate_succ, List.cons_append, expressionEnd.eq_def]
    simp [isQuote, closer?, isCloser, Reach.pass, ih]

end Completeness

section Soundness
variable {delimiters closers cs s : List Char} {c closer : Char}

/-- Groups that are open, each with balanced text behind its bracket. The brackets that are due come
innermost first. -/
inductive Open : List Char → List Char → Prop where
  | none : Open [] []
  | inner {closers cs inside : List Char} {c closer : Char} (outer : Open closers cs)
      (opens : closer? c = some closer) (within : Nested inside) :
      Open (closer :: closers) (cs ++ c :: inside)

/-- A sequence of items and the groups that are open after it. -/
def Scanned (delimiters closers cs : List Char) : Prop :=
  ∃ before groups, Items delimiters before ∧ Open closers groups ∧ cs = before ++ groups

namespace Scanned

theorem items (h : Scanned delimiters [] cs) : Items delimiters cs := by
  obtain ⟨before, groups, hitems, hopen, rfl⟩ := h
  cases hopen
  rwa [List.append_nil]

/-- Text that is an item outside of all groups, and balanced within one. -/
theorem append (h : Scanned delimiters closers cs) (hitem : closers = [] → Item delimiters s)
    (hnested : Nested s) : Scanned delimiters closers (cs ++ s) := by
  obtain ⟨before, groups, hitems, hopen, rfl⟩ := h
  cases hopen with
  | none => exact ⟨_, [], hitems.concat (hitem rfl), .none, by simp⟩
  | inner outer opens within =>
    exact ⟨before, _, hitems, .inner outer opens (within.append hnested), by simp⟩

theorem opens (h : Scanned delimiters closers cs) (hc : closer? c = some closer) :
    Scanned delimiters (closer :: closers) (cs ++ [c]) := by
  obtain ⟨before, groups, hitems, hopen, rfl⟩ := h
  exact ⟨before, _, hitems, .inner hopen hc .nil, List.append_assoc _ _ _⟩

/-- The bracket that is due makes a whole group. -/
theorem closes (h : Scanned delimiters (closer :: closers) cs) :
    ∃ outer group, Scanned delimiters closers outer ∧ Item delimiters group ∧ Nested group ∧
      group ≠ [' '] ∧ cs ++ [closer] = outer ++ group := by
  obtain ⟨before, groups, hitems, hopen, rfl⟩ := h
  cases hopen with
  | @inner _ outer inside c _ houter hc within =>
    exact ⟨before ++ outer, c :: (inside ++ [closer]), ⟨before, outer, hitems, houter, rfl⟩,
      .group hc within, .of_group hc within, by simp, by simp⟩

end Scanned

/-- The string that a scan is in, as far as it was read. -/
inductive Begun : Option Char → List Char → Prop where
  | none : Begun none []
  | string {quote : Char} {cs : List Char} (opens : isQuote quote) (inside : Protected quote cs) :
      Begun (some quote) (quote :: cs)

/-- An expression ends at an index of a text, or the index is its start. -/
def StopsAt (delimiters text : List Char) (stop : Nat) : Prop :=
  stop = 0 ∨ stop ≤ text.length ∧ IsExpression delimiters (text.take stop)

theorem StopsAt.append {stop : Nat} (h : StopsAt delimiters cs stop) (s : List Char) :
    StopsAt delimiters (cs ++ s) stop := by
  refine h.imp_right fun ⟨hle, hexpression⟩ => ⟨?_, ?_⟩
  · rw [List.length_append]
    exact Nat.le_add_right_of_le hle
  · rwa [List.take_append_of_le_length hle]

/-- What a scan has read, and that it stops after an expression if it found one. -/
structure Reach.After (delimiters : List Char) (r : Reach) (cs : List Char) : Prop where
  read : r.read = cs.length
  scanned : ∃ before str,
    Scanned delimiters r.closers before ∧ Begun r.quote str ∧ cs = before ++ str
  stop : StopsAt delimiters cs r.stop

namespace Reach.After
variable {r r' : Reach} {quote : Char}

theorem start : start.After delimiters [] :=
  ⟨rfl, ⟨[], [], ⟨[], [], .nil, .none, rfl⟩, .none, rfl⟩, Or.inl rfl⟩

/-- Outside of strings, all was scanned. -/
theorem outside (h : r.After delimiters cs) (hquote : r.quote = none) :
    Scanned delimiters r.closers cs := by
  obtain ⟨before, str, hscanned, hbegun, rfl⟩ := h.scanned
  rw [hquote] at hbegun
  cases hbegun
  rwa [List.append_nil]

/-- In a string, its inside was read after what was scanned. -/
theorem within (h : r.After delimiters cs) (hquote : r.quote = some quote) :
    ∃ before inside, Scanned delimiters r.closers before ∧ isQuote quote ∧
      Protected quote inside ∧ cs = before ++ quote :: inside := by
  obtain ⟨before, str, hscanned, hbegun, rfl⟩ := h.scanned
  rw [hquote] at hbegun
  cases hbegun with
  | string opens inside => exact ⟨before, _, hscanned, opens, inside, rfl⟩

/-- More was read, and the scan stops where it would have stopped. -/
theorem pass (h : r.After delimiters cs) (hread : r'.read = r.read + s.length)
    (hstop : r'.stop = r.stop) {before str : List Char}
    (hbefore : Scanned delimiters r'.closers before) (hbegun : Begun r'.quote str)
    (heq : cs ++ s = before ++ str) : r'.After delimiters (cs ++ s) where
  read := by rw [hread, h.read, List.length_append]
  scanned := ⟨before, str, hbefore, hbegun, heq⟩
  stop := hstop ▸ h.stop.append s

/-- One character more was read, which ends an item or balanced text in a group. -/
theorem take (h : r.After delimiters cs) (hread : r'.read = r.read) (hstop : r'.stop = r.stop)
    (hquote : r'.quote = none) {before item : List Char}
    (hbefore : Scanned delimiters r'.closers before)
    (hitem : r'.closers = [] → Item delimiters item) (hnested : Nested item) (hne : item ≠ [' '])
    (heq : cs ++ [c] = before ++ item) : r'.take.After delimiters (cs ++ [c]) := by
  have hlength : r'.read + 1 = (cs ++ [c]).length := by
    rw [hread, h.read, List.length_append, List.length_singleton]
  refine ⟨hlength, ⟨before ++ item, [], hbefore.append hitem hnested, ?_, by simp [heq]⟩, ?_⟩
  · rw [show r'.take.quote = none from hquote]
    exact .none
  · cases hclosers : r'.closers with
    | nil =>
      have hwhole : r'.take.stop = (cs ++ [c]).length := by
        rw [← hlength]
        simp [Reach.take, hclosers]
      rw [hclosers] at hbefore
      refine Or.inr ⟨Nat.le_of_eq hwhole, ?_⟩
      rw [hwhole, List.take_length, heq]
      exact .intro hbefore.items (hitem hclosers) hne
    | cons =>
      have hsame : r'.take.stop = r.stop := by simp [Reach.take, hclosers, hstop]
      rw [hsame]
      exact h.stop.append [c]

end Reach.After

/-- What a scan passes at once: a character, or a backslash and the one it protects. -/
inductive IsStep : List Char → Prop where
  | char (c : Char) : IsStep [c]
  | escaped (c : Char) : IsStep ['\\', c]

/-- A scan ends where it stands, or it passes a character, or two. -/
theorem Reach.After.next {r : Reach} (h : r.After delimiters cs) (c : Char) (rest : List Char) :
    expressionEnd delimiters r (c :: rest) = r.stop ∨
      ∃ passed rest' r', IsStep passed ∧ c :: rest = passed ++ rest' ∧
        expressionEnd delimiters r (c :: rest) = expressionEnd delimiters r' rest' ∧
        r'.After delimiters (cs ++ passed) := by
  generalize htext : c :: rest = text
  clear htext
  fun_cases expressionEnd delimiters r text with
  | case1 | case2 | case8 | case10 | case11 | case12 => exact Or.inl rfl
  | case3 r c quote hquote hbackslash d rest =>
    obtain ⟨before, inside, hbefore, hopens, hinside, rfl⟩ := h.within hquote
    obtain rfl := beq_iff_eq.mp hbackslash
    have hmore := Begun.string hopens (hinside.append (.escaped d .nil))
    rw [← hquote] at hmore
    exact Or.inr ⟨_, rest, _, .escaped d, rfl, rfl, h.pass rfl rfl hbefore hmore (by simp)⟩
  | case4 r c rest quote hquote hbackslash hends =>
    obtain ⟨before, inside, hbefore, hopens, hinside, rfl⟩ := h.within hquote
    obtain rfl := beq_iff_eq.mp hends
    have hstring := IsString.intro hopens hinside
    exact Or.inr ⟨_, rest, _, .char c, rfl, rfl, h.take rfl rfl rfl hbefore (fun _ => .string hstring)
      (.of_string hstring) (by simp) (by simp)⟩
  | case5 r c rest quote hquote hbackslash hends =>
    obtain ⟨before, inside, hbefore, hopens, hinside, rfl⟩ := h.within hquote
    have hplain : Protected quote [c] :=
      .plain (by simpa using hends) (by simpa using hbackslash) .nil
    have hmore := Begun.string hopens (hinside.append hplain)
    rw [← hquote] at hmore
    exact Or.inr ⟨_, rest, _, .char c, rfl, rfl, h.pass rfl rfl hbefore hmore (by simp)⟩
  | case6 r c rest hquote hopens =>
    exact Or.inr ⟨_, rest, _, .char c, rfl, rfl,
      h.pass rfl rfl (h.outside hquote) (.string hopens .nil) rfl⟩
  | case7 r c rest hquote _ closer hcloser =>
    have hbegun : Begun r.quote [] := hquote ▸ .none
    exact Or.inr ⟨_, rest, _, .char c, rfl, rfl,
      h.pass rfl rfl ((h.outside hquote).opens hcloser) hbegun (List.append_nil _).symm⟩
  | case9 r c rest hquote _ _ _ closer outer hclosers hcloses =>
    obtain rfl := beq_iff_eq.mp hcloses
    have hscanned := hclosers ▸ h.outside hquote
    obtain ⟨before, group, hbefore, hitem, hnested, hne, heq⟩ := hscanned.closes
    exact Or.inr ⟨_, rest, _, .char c, rfl, rfl,
      h.take rfl rfl hquote hbefore (fun _ => hitem) hnested hne heq⟩
  | case13 r c rest hquote hnotQuote hopener hcloser hbackslash hdelimiter hspace =>
    have hplain := isPlain_of_passed hnotQuote hopener hcloser hbackslash
    have hitem := item_of_passed hplain hdelimiter
    have hbegun : Begun r.quote [] := hquote ▸ .none
    exact Or.inr ⟨_, rest, _, .char c, rfl, rfl, h.pass rfl rfl
      ((h.outside hquote).append hitem (.of_char hplain)) hbegun (List.append_nil _).symm⟩
  | case14 r c rest hquote hnotQuote hopener hcloser hbackslash hdelimiter hspace =>
    have hplain := isPlain_of_passed hnotQuote hopener hcloser hbackslash
    have hitem := item_of_passed hplain hdelimiter
    exact Or.inr ⟨_, rest, _, .char c, rfl, rfl, h.take rfl rfl hquote (h.outside hquote) hitem
      (.of_char hplain) (by simpa using hspace) rfl⟩

theorem IsStep.length_lt {passed : List Char} (h : IsStep passed) (rest : List Char) :
    rest.length < (passed ++ rest).length := by
  have hpos : 0 < passed.length := by cases h <;> exact Nat.succ_pos _
  rw [List.length_append]
  omega

/-- A scan stops after an expression, or where it started. -/
theorem stopsAt_expressionEnd {r : Reach} {text : List Char} (h : r.After delimiters cs) :
    StopsAt delimiters (cs ++ text) (expressionEnd delimiters r text) := by
  induction hn : text.length using Nat.strongRecOn generalizing r cs text with
  | ind n ih =>
    cases text with
    | nil =>
      rw [List.append_nil]
      exact h.stop
    | cons c rest =>
      rcases h.next c rest with hstop | ⟨passed, rest', r', hstep, heq, hend, hafter⟩
      · rw [hstop]
        exact h.stop.append _
      · rw [hend, heq, ← List.append_assoc]
        exact ih rest'.length (by rw [← hn, heq]; exact hstep.length_lt _) hafter rfl

end Soundness

section Longest
variable {delimiters text : List Char}

theorem le_expressionEnd {n : Nat} (hle : n ≤ text.length)
    (h : IsExpression delimiters (text.take n)) : n ≤ expressionEnd delimiters .start text := by
  have hlength := length_le_expressionEnd h (text.drop n)
  rwa [List.take_append_drop, List.length_take_of_le hle] at hlength

theorem expression_eq : expression delimiters text =
    if expressionEnd delimiters .start text = 0 then none
    else some (expressionEnd delimiters .start text) := by
  unfold expression
  split
  · rename_i h
    rw [if_pos h]
  · rename_i h
    rw [if_neg h]

/-- A scan finds the longest expression that a text starts with. -/
theorem expression_eq_some_iff {n : Nat} : expression delimiters text = some n ↔
    IsGreatest {m | m ≤ text.length ∧ IsExpression delimiters (text.take m)} n := by
  have hstops : StopsAt delimiters text (expressionEnd delimiters .start text) :=
    stopsAt_expressionEnd .start
  rw [expression_eq]
  constructor
  · intro h
    split at h
    · cases h
    · rename_i hpos
      rw [← Option.some.inj h]
      exact ⟨hstops.resolve_left hpos, fun m hm => le_expressionEnd hm.1 hm.2⟩
  · rintro ⟨⟨hle, hexpression⟩, hgreatest⟩
    have hn := le_expressionEnd hle hexpression
    have hpos : expressionEnd delimiters .start text ≠ 0 := by
      intro hzero
      rw [hzero, Nat.le_zero] at hn
      exact hexpression.ne_nil (by simp [hn])
    rw [if_neg hpos]
    exact congrArg some (Nat.le_antisymm (hgreatest (hstops.resolve_left hpos)) hn)

theorem le_length_of_expression {n : Nat} (h : expression delimiters text = some n) :
    n ≤ text.length :=
  (expression_eq_some_iff.mp h).1.1

theorem expression_eq_none_iff : expression delimiters text = none ↔
    ∀ m ≤ text.length, ¬ IsExpression delimiters (text.take m) := by
  have hstops : StopsAt delimiters text (expressionEnd delimiters .start text) :=
    stopsAt_expressionEnd .start
  rw [expression_eq]
  constructor
  · intro h m hle hexpression
    split at h
    · rename_i hzero
      have hm := le_expressionEnd hle hexpression
      rw [hzero, Nat.le_zero] at hm
      exact hexpression.ne_nil (by simp [hm])
    · cases h
  · intro h
    refine if_pos (Decidable.byContradiction fun hpos => ?_)
    obtain ⟨hle, hexpression⟩ := hstops.resolve_left hpos
    exact h _ hle hexpression

/-- An expression is read as far as it goes, whatever stops the scan behind it. -/
theorem expression_append {rest : List Char} (h : expression delimiters text = some text.length)
    (spaces : Nat) (hrest : ∀ c ∈ rest.head?, Stops delimiters c) :
    expression delimiters (text ++ (List.replicate spaces ' ' ++ rest)) = some text.length := by
  have hexpression := (expression_eq_some_iff.mp h).1.2
  rw [List.take_length] at hexpression
  rw [expression_eq, expressionEnd_expression hexpression, expressionEnd_stops spaces hrest,
    if_neg fun hnil => hexpression.ne_nil (List.length_eq_zero_iff.mp hnil)]

theorem Items.append_chars {cs before : List Char} (h : Items delimiters before)
    (hcs : ∀ c ∈ cs, IsPlain c ∧ c ∉ delimiters) : Items delimiters (before ++ cs) := by
  induction cs generalizing before with
  | nil => rwa [List.append_nil]
  | cons c cs ih =>
    obtain ⟨hplain, hinner⟩ := hcs c List.mem_cons_self
    rw [List.append_cons]
    exact ih (.concat h (.char hplain hinner)) fun d hd => hcs d (List.mem_cons_of_mem _ hd)

theorem expression_of_plain (hne : text ≠ []) (hspace : ' ' ∉ text)
    (h : ∀ c ∈ text, IsPlain c ∧ c ∉ delimiters) :
    expression delimiters text = some text.length := by
  have hexpression : IsExpression delimiters text := by
    obtain ⟨cs, c, rfl⟩ : ∃ cs c, text = cs ++ [c] :=
      ⟨_, _, (List.dropLast_concat_getLast hne).symm⟩
    obtain ⟨hplain, hinner⟩ := h c (List.mem_append_right _ List.mem_cons_self)
    have hitems : Items delimiters ([] ++ cs) :=
      .append_chars .nil fun d hd => h d (List.mem_append_left _ hd)
    refine .intro hitems (.char hplain hinner) ?_
    rintro heq
    rw [heq] at hspace
    exact hspace (List.mem_append_right _ List.mem_cons_self)
  refine expression_eq_some_iff.mpr ⟨⟨Nat.le_refl _, ?_⟩, fun m hm => hm.1⟩
  rwa [List.take_length]

end Longest

/-- An index of a text that is the end of an expression from `start` on. -/
def EndsExpression (delimiters text : List Char) (start stop : Nat) : Prop :=
  start < stop ∧ stop ≤ text.length ∧ IsExpression delimiters (Text.slice text start stop)

theorem endsExpression_iff {delimiters text : List Char} {start stop : Nat} :
    EndsExpression delimiters text start stop ↔ ∃ m, stop = start + m ∧
      m ≤ (text.drop start).length ∧ IsExpression delimiters ((text.drop start).take m) := by
  unfold EndsExpression
  rw [Text.slice_natCast]
  constructor
  · rintro ⟨hlt, hle, h⟩
    refine ⟨stop - start, by omega, ?_, h⟩
    rw [List.length_drop]
    omega
  · rintro ⟨m, rfl, hle, h⟩
    have hpos : m ≠ 0 := by
      rintro rfl
      exact h.ne_nil rfl
    rw [List.length_drop] at hle
    rw [Nat.add_sub_cancel_left]
    exact ⟨by omega, by omega, h⟩

/-- A scan from an index on stops at the last index that ends an expression there. It finds nothing
if and only if there is none. -/
theorem expressionAt_longest (delimiters text : List Char) (start : Nat) :
    (∀ stop : Int, expressionAt delimiters text start = .ok (some stop) ↔
      ∃ n : Nat, stop = n ∧ IsGreatest {m | EndsExpression delimiters text start m} n) ∧
    (expressionAt delimiters text start = .ok none ↔
      ∀ n, ¬ EndsExpression delimiters text start n) := by
  rw [expressionAt_natCast]
  simp only [Except.ok.injEq, stopOf]
  constructor
  · intro stop
    rw [Option.map_eq_some_iff]
    constructor
    · rintro ⟨m, hscan, rfl⟩
      obtain ⟨⟨hle, hexpression⟩, hgreatest⟩ := expression_eq_some_iff.mp hscan
      refine ⟨start + m, rfl, endsExpression_iff.mpr ⟨m, rfl, hle, hexpression⟩, ?_⟩
      intro n hn
      obtain ⟨k, rfl, hk⟩ := endsExpression_iff.mp hn
      exact Nat.add_le_add_left (hgreatest hk) start
    · rintro ⟨n, rfl, hends, hgreatest⟩
      obtain ⟨m, rfl, hm⟩ := endsExpression_iff.mp hends
      refine ⟨m, expression_eq_some_iff.mpr ⟨hm, fun k hk => ?_⟩, by simp⟩
      exact Nat.add_le_add_iff_left.mp (hgreatest (endsExpression_iff.mpr ⟨k, rfl, hk⟩))
  · rw [Option.map_eq_none_iff, expression_eq_none_iff]
    constructor
    · intro h n hends
      obtain ⟨m, -, hle, hexpression⟩ := endsExpression_iff.mp hends
      exact h m hle hexpression
    · intro h m hle hexpression
      exact h (start + m) (endsExpression_iff.mpr ⟨m, rfl, hle, hexpression⟩)

/-- The comma in the brackets belongs to the expression, the one after them and the space before it
do not. -/
example : expression [','] "f(a, 'b)') , c".toList = some 10 := by decide +kernel

end TemplateTree.Scan
