import TemplateTree.Proofs.Reads
import TemplateTree.Template

/-!
# What productions keep

Whatever a production reads, it moves its cursor along the line or to the next one, writes records
of four kinds, and refuses a template where the cursor stands, for a few causes. What holds of every
cursor that is moved so, of every such record and of every such cause holds at the end of each
production, also of one that fails.
-/

set_option autoImplicit false

namespace TemplateTree

/-- A list that has to go on goes on up to the bracket that closes it. -/
def Expected.Closes : Expected → Prop
  | .moreAttributes closer => closer = '}' ∨ closer = ')'
  | _ => True

/-- A property of cursors, with the records and the causes of refusals that it allows. -/
structure Invariant where
  cursor : Cursor → Prop
  record : LogRecord → Prop
  cause : SyntaxError.Cause → Prop

namespace Invariant

/-- The invariant without any demand on refusals. -/
def anyCause (I : Invariant) : Invariant := { I with cause := fun _ => True }

/-- What a production can do does not lead out of the invariant. -/
class Kept (I : Invariant) : Prop where
  column {c : Cursor} (column : Int) (h : I.cursor c) : I.cursor { c with column }
  nextLine {c : Cursor} (h : I.cursor c) : I.cursor c.nextLine.2
  unexpected {c : Cursor} {found : Option Char} {what : Expected} (h : I.cursor c)
    (hfound : c.peekChar = .ok found) (hwhat : what.Closes) : I.cause (.unexpected found what)
  checked {t : Indent} {indent : List Char} {atStart : Bool} {cause : SyntaxError.Cause}
    (h : (t.check indent atStart).1 = .error cause) : I.cause cause
  selfClosing : I.cause .selfClosing
  unitEstablished (char : Char) (width : Nat) : I.record (.unitEstablished char width)
  silentBlock (source : LogSource) (lines : Nat) : I.record (.silentBlock source lines)
  filterBlock {c : Cursor} {m : Match} (lines : Nat) (h : I.cursor c)
    (hm : Pattern.filterMarker c.inLine.rest = some m) :
    I.record (.filterBlock (String.ofList (Text.trim (m.groupText 0))) lines)
  speculationFailed {cause : SyntaxError.Cause} (line : Int) (h : I.cause cause) :
    I.record (.speculationFailed line cause.message)

structure Holds (I : Invariant) (r : Reading) : Prop where
  cursor : I.cursor r.cursor
  log : ∀ entry ∈ r.log, I.record entry

/-- A refusal is for an allowed cause, at the place where the cursor stands. -/
def Allows (I : Invariant) (r : Reading) (e : Failure) : Prop :=
  ∀ s, e = .refused s → ∃ cause, I.cause cause ∧ s = r.cursor.error cause

variable {I : Invariant} {r : Reading}

theorem Allows.refused {cause : SyntaxError.Cause} (h : I.cause cause) :
    I.Allows r (.refused (r.cursor.error cause)) :=
  fun _ heq => ⟨cause, h, (Failure.refused.inj heq).symm⟩

theorem Holds.record (h : I.Holds r) {entry : LogRecord} (hentry : I.record entry) :
    I.Holds { r with log := r.log ++ [entry] } := by
  refine ⟨h.cursor, fun e he => ?_⟩
  rcases List.mem_append.mp he with he | he
  · exact h.log e he
  · obtain rfl := List.mem_singleton.mp he
    exact hentry

theorem Holds.move (h : I.Holds r) {c : Cursor} (hc : I.cursor c) :
    I.Holds { r with cursor := c } := ⟨hc, h.log⟩

end Invariant

namespace Production
variable {α β : Type} {I : Invariant}

/-- An invariant holds after a production when it holds before it, and a refusal is allowed. -/
def Keeps (I : Invariant) (p : Production α) : Prop := ∀ r, I.Holds r →
  Ensures p r (fun _ r' => I.Holds r') (fun e r' => I.Holds r' ∧ I.Allows r' e)

namespace Keeps
variable {p : Production α} {f : α → Production β}

theorem pure (a : α) : Keeps I (Pure.pure a) := fun _ h => h

theorem bind (hp : Keeps I p) (hf : ∀ a, Keeps I (f a)) : Keeps I (p >>= f) := fun r h =>
  ensures_bind.mpr ((hp r h).imp (fun a r' h' => hf a r' h') fun _ _ h' => h')

/-- What is read first may be missing. -/
theorem bind? {p : Production (Option α)} {f : Option α → Production β} (hp : Keeps I p)
    (hnone : Keeps I (f none)) (hsome : ∀ a, Keeps I (f (some a))) : Keeps I (p >>= f) := by
  refine hp.bind fun found => ?_
  cases found with
  | none => exact hnone
  | some a => exact hsome a

theorem ite {c : Prop} [Decidable c] {q : Production α} (hp : Keeps I p) (hq : Keeps I q) :
    Keeps I (if c then p else q) := by
  split
  · exact hp
  · exact hq

theorem map {g : α → β} (hp : Keeps I p) : Keeps I (g <$> p) := by
  rw [map_eq_pure_bind]
  exact hp.bind fun _ => .pure _

theorem anyCause (hp : Keeps I p) : Keeps I.anyCause p := by
  intro r h
  refine (hp r ⟨h.cursor, h.log⟩).imp (fun _ s hs => ⟨hs.cursor, hs.log⟩) fun _ s hs => ?_
  refine ⟨⟨hs.1.cursor, hs.1.log⟩, fun e he => ?_⟩
  obtain ⟨cause, -, heq⟩ := hs.2 e he
  exact ⟨cause, trivial, heq⟩

end Keeps

section Control
variable {p : Production α}

theorem keeps_cursor : Keeps I cursor := fun _ h => h

theorem keeps_get : Keeps I (get : Production Reading) := fun _ h => h

theorem keeps_record {entry : LogRecord} (hentry : I.record entry) : Keeps I (record entry) :=
  fun _ h => h.record hentry

theorem keeps_refuse_bind {cause : SyntaxError.Cause} (hcause : I.cause cause)
    {f : α → Production β} : Keeps I (do f (← refuse ((← cursor).error cause))) := fun _ h =>
  ⟨h, .refused hcause⟩

theorem keeps_onLine (a : Except Text.Outside α) : Keeps I (onLine a) := fun _ h =>
  match a with
  | .ok _ => h
  | .error _ => ⟨h, fun _ heq => by cases heq⟩

theorem keeps_peekChar : Keeps I peekChar := keeps_cursor.bind fun _ => keeps_onLine _

/-- Induction along a loop, over what is left of the source. -/
theorem keeps_repeatWhile {step : β → Production (ForInStep β)} (hs : ∀ b, Keeps I (step b))
    (b : β) : Keeps I (repeatWhile step b) := by
  intro r hr
  unfold repeatWhile Ensures
  rw [ExceptT.run_mk]
  induction hn : r.cursor.remaining using Nat.strongRecOn generalizing b r with
  | ind n ih =>
    subst hn
    have h := hs b r hr
    unfold Ensures at h
    unfold iterate
    rcases hrun : (step b).run r with ⟨e | b' | b', r₁⟩ <;> rw [hrun] at h
    · exact h
    · exact h
    · dsimp only at h ⊢
      split_ifs with hlt
      · exact ih _ hlt b' r₁ h rfl
      · exact h

theorem keeps_mapM {f : α → Production β} (hf : ∀ a, Keeps I (f a)) (as : List α) :
    Keeps I (as.mapM f) := by
  induction as with
  | nil => exact .pure _
  | cons a as ih =>
    rw [List.mapM_cons]
    exact (hf a).bind fun _ => ih.bind fun _ => .pure _

theorem keeps_firstOf {ps : List (Production (Option Node))} (h : ∀ p ∈ ps, Keeps I p) :
    Keeps I (firstOf ps) := by
  induction ps with
  | nil => exact .pure _
  | cons p ps ih =>
    have hps : Keeps I (firstOf ps) := ih fun q hq => h q (List.mem_cons_of_mem _ hq)
    exact (h p List.mem_cons_self).bind? hps fun _ => .pure _

theorem keeps_addStatement (statement : Node) (level previous : Int) :
    Keeps I.anyCause (addStatement statement level previous) := by
  intro r h
  unfold addStatement
  rw [ensures_get_bind]
  rcases r.outline.insert statement level previous with ⟨(cause | _) | ⟨⟩, o⟩
  · exact ⟨⟨h.cursor, h.log⟩, .refused trivial⟩
  · exact ⟨⟨h.cursor, h.log⟩, fun _ heq => by cases heq⟩
  · exact ⟨h.cursor, h.log⟩

theorem keeps_place : ∀ said : Entry, Keeps I.anyCause (place said)
  | .blank => .pure _
  | .statement node level previous => keeps_addStatement node level previous

end Control

variable [I.Kept]

open Invariant (Kept)

/-! ## Steps -/

section Steps
variable {p : Production α}

theorem keeps_expected (what : Expected) (hwhat : what.Closes) :
    Keeps I (expected what : Production α) := by
  intro r h
  unfold expected
  rw [ensures_cursor_bind]
  unfold Cursor.unexpected
  cases hfound : r.cursor.peekChar with
  | error _ => exact ⟨h, fun _ heq => by cases heq⟩
  | ok found => exact ⟨h, .refused (Kept.unexpected h.cursor hfound hwhat)⟩

theorem keeps_skip (n : Int) : Keeps I (modifyCursor (·.skip n)) := fun _ h =>
  h.move (Kept.column _ h.cursor)

theorem keeps_skipIndent : Keeps I skipIndent := fun _ h =>
  h.move (Kept.column _ (Kept.column _ h.cursor))

theorem keeps_restOfLine : Keeps I restOfLine := fun _ h => h.move (Kept.column _ h.cursor)

theorem keeps_nextLine : Keeps I nextLine := fun _ h => h.move (Kept.nextLine h.cursor)

/-- What a pattern has matched is known in what follows. -/
theorem keeps_eat?_bind {p : Pattern} {f : Option Match → Production β} (hnone : Keeps I (f none))
    (hsome : ∀ c m, I.cursor c → p c.inLine.rest = some m → Keeps I (f (some m))) :
    Keeps I (eat? p >>= f) := by
  intro r h
  unfold eat?
  rw [bind_assoc, ensures_cursor_bind]
  unfold Cursor.eat?
  cases hm : p r.cursor.inLine.rest with
  | none => exact hnone r h
  | some m =>
    exact hsome r.cursor m h.cursor hm _ (h.move (Kept.column _ (Kept.column _ h.cursor)))

theorem keeps_eat? (p : Pattern) : Keeps I (eat? p) := by
  rw [← bind_pure (eat? p)]
  exact keeps_eat?_bind (.pure _) fun _ _ _ _ => .pure _

theorem keeps_eat (p : Pattern) : Keeps I (eat p) := (keeps_eat? p).bind fun _ => .pure _

theorem keeps_advanceTo (target : Int) : Keeps I (advanceTo target) := by
  intro r h
  unfold advanceTo
  rw [ensures_cursor_bind]
  unfold Cursor.advanceTo
  by_cases hb : target < r.cursor.column
  · rw [if_pos hb]
    exact ⟨h, fun _ heq => by cases heq⟩
  · rw [if_neg hb]
    exact h.move (Kept.column _ h.cursor)

theorem keeps_attempt (hp : Keeps I p) : Keeps I (attempt p) := by
  intro r h
  have h := hp r h
  unfold Ensures at h ⊢
  unfold attempt
  rw [ExceptT.run_mk]
  rcases hrun : p.run r with ⟨e | a, r'⟩ <;> rw [hrun] at h
  · cases e with
    | refused s =>
      obtain ⟨cause, hcause, rfl⟩ := h.2 s rfl
      exact h.1.record (Kept.speculationFailed _ hcause)
    | _ => exact h
  · exact h

theorem keeps_checkIndent (indent : List Char) (atStart : Bool) :
    Keeps I (checkIndent indent atStart) := by
  intro r h
  unfold checkIndent
  rw [ensures_get_bind, ensures_get_bind]
  rcases hcheck : r.indent.check indent atStart with ⟨cause | level, t⟩
  · dsimp only
    rw [ensures_modify_bind]
    exact ⟨⟨h.cursor, h.log⟩, .refused (Kept.checked (congrArg Prod.fst hcheck))⟩
  · dsimp only
    rw [ensures_modify_bind]
    have h' : I.Holds { r with indent := t } := ⟨h.cursor, h.log⟩
    split
    · split
      · exact h'.record (Kept.unitEstablished _ _)
      · exact h'
    · exact h'

end Steps

/-! ## Strings -/

theorem keeps_stringEnd : ∀ q : Quoting, Keeps I (stringEnd q)
  | .quoted => (keeps_eat _).bind fun found => by
    cases found
    · exact keeps_expected _ trivial
    · exact .pure _
  | .bare => keeps_cursor.bind fun c => by
    cases c.isEnd
    · exact keeps_expected _ trivial
    · exact .pure _

theorem keeps_stringBody (q : Quoting) : Keeps I (stringBody q) :=
  keeps_cursor.bind fun _ => (keeps_onLine _).bind fun (_, stop) =>
    (keeps_advanceTo stop).bind fun _ => (keeps_stringEnd q).bind fun _ =>
      keeps_cursor.bind fun _ => .pure _

theorem keeps_interpolatedString (q : Quoting) : Keeps I (interpolatedString q) := by
  unfold interpolatedString
  cases q with
  | bare => exact keeps_stringBody _
  | quoted =>
    refine (keeps_eat _).bind fun found => ?_
    cases found
    · exact (keeps_expected .quotedString trivial).bind fun _ => keeps_stringBody _
    · exact keeps_stringBody _

theorem keeps_interpolation? : Keeps I interpolation? :=
  keeps_cursor.bind fun _ => (keeps_onLine _).bind? (.pure _) fun close =>
    (keeps_advanceTo (close + 1)).bind fun _ => .pure _

theorem keeps_expression (delimiters : List Char) : Keeps I (expression delimiters) :=
  keeps_cursor.bind fun _ => (keeps_onLine _).bind? (keeps_expected _ trivial) fun stop =>
    (keeps_advanceTo stop).bind fun _ => .pure _

theorem keeps_symbol : Keeps I symbol :=
  keeps_cursor.bind fun _ => (keeps_eat? _).bind? (keeps_expected _ trivial) fun _ => .pure _

theorem keeps_speculate {p : Production Node} (hp : Keeps I p) : Keeps I (speculate p) :=
  (keeps_attempt hp).bind? (.pure _) fun _ => keeps_cursor.bind fun _ => .pure _

theorem keeps_literal? {text : List Char} {literal : Production Node}
    (h : literal? text = some literal) : Keeps I literal := by
  unfold literal? at h
  split at h
  · rw [← Option.some.inj h]
    exact keeps_interpolatedString _
  · rw [← Option.some.inj h]
    exact keeps_symbol
  · cases h

/-- A literal that is tried leads somewhere, but the cursor is put back to the end of the
expression. -/
theorem keeps_attributeExpression (delimiters : List Char) :
    Keeps I (attributeExpression delimiters) := by
  intro r h
  unfold attributeExpression
  rw [ensures_cursor_bind]
  refine ensures_bind.mpr ((keeps_expression delimiters r h).imp ?_ fun _ _ h => h)
  intro (text, position) r₁ h₁
  dsimp only
  cases hl : literal? text with
  | none => exact h₁
  | some literal =>
    dsimp only
    rw [ensures_cursor_bind]
    rw [ensures_bind]
    change Ensures (speculate literal >>= _) { r₁ with cursor := r.cursor } _ _
    refine ensures_bind.mpr
      ((keeps_speculate (keeps_literal? hl) _ (h₁.move h.cursor)).imp ?_ fun _ _ h => h)
    intro result r₂ h₂
    rw [ensures_bind]
    change Ensures _ { r₂ with cursor := r₁.cursor } _ _
    have hback : I.Holds { r₂ with cursor := r₁.cursor } := h₂.move h₁.cursor
    cases result with
    | none => exact hback
    | some found =>
      dsimp only
      split
      · exact (keeps_advanceTo found.2).bind (fun _ => .pure found.1) _ hback
      · exact hback

/-! ## Attributes -/

theorem keeps_continueList {closer : Char} (hcloser : closer = '}' ∨ closer = ')') :
    Keeps I (continueList closer) := by
  refine keeps_cursor.bind fun _ => ?_
  have hgo : Keeps I (do discard nextLine; skipIndent) :=
    keeps_nextLine.map.bind fun _ => keeps_skipIndent
  exact .ite ((keeps_expected (.moreAttributes closer) hcloser).bind fun _ => hgo) hgo

theorem keeps_nextShorthand (found : List Node) : Keeps I (nextShorthand found) :=
  keeps_cursor.bind fun _ => (keeps_eat? _).bind? (.pure _) fun _ => .pure _

theorem keeps_hashEntry : Keeps I hashEntry := by
  refine keeps_interpolation?.bind? ?_ fun _ => .pure _
  exact (keeps_attributeExpression _).bind fun _ => keeps_skipIndent.bind fun _ =>
    (keeps_eat _).bind fun _ =>
      .ite ((keeps_attributeExpression _).bind fun _ => .pure _) (.pure _)

theorem keeps_nextHashEntry (found : List Node) : Keeps I (nextHashEntry found) := by
  refine keeps_hashEntry.bind fun entry => keeps_skipIndent.bind fun _ =>
    (keeps_eat _).bind fun _ => .ite (.pure _) ((keeps_eat _).bind fun _ => ?_)
  have hgo : Keeps I (do
      if (← cursor).isEnd then continueList '}'
      return .yield (found ++ [entry]) : Production (ForInStep (List Node))) :=
    keeps_cursor.bind fun _ =>
      .ite ((keeps_continueList (.inl rfl)).bind fun _ => .pure _) (.pure _)
  exact .ite ((keeps_expected .hashSeparator trivial).bind fun _ => hgo) hgo

theorem keeps_hashAttributes : Keeps I hashAttributes :=
  (keeps_eat _).bind fun _ => .ite (.pure _) (keeps_repeatWhile keeps_nextHashEntry _)

theorem keeps_htmlEntry : Keeps I htmlEntry := by
  refine keeps_interpolation?.bind? ?_ fun _ => .pure _
  exact keeps_cursor.bind fun _ => (keeps_eat? _).bind? (keeps_expected _ trivial) fun _ =>
    (keeps_eat _).bind fun _ =>
      .ite ((keeps_attributeExpression _).bind fun _ => .pure _) (.pure _)

theorem keeps_nextHtmlEntry (found : List Node) : Keeps I (nextHtmlEntry found) := by
  refine keeps_htmlEntry.bind fun entry => (keeps_eat _).bind fun _ =>
    .ite (.pure _) ((keeps_eat _).bind fun _ => ?_)
  have hgo : Keeps I (do
      if (← cursor).isEnd then continueList ')'
      return .yield (found ++ [entry]) : Production (ForInStep (List Node))) :=
    keeps_cursor.bind fun _ =>
      .ite ((keeps_continueList (.inr rfl)).bind fun _ => .pure _) (.pure _)
  exact keeps_cursor.bind fun _ =>
    .ite ((keeps_expected .htmlSeparator trivial).bind fun _ => hgo) hgo

theorem keeps_htmlAttributes : Keeps I htmlAttributes :=
  (keeps_eat _).bind fun _ => .ite (.pure _) (keeps_repeatWhile keeps_nextHtmlEntry _)

theorem keeps_nextObjectPart (found : List Node) : Keeps I (nextObjectPart found) := by
  refine (keeps_eat _).bind fun _ => .ite (.pure _) ((keeps_expression _).bind fun _ =>
    (keeps_eat _).bind fun _ => .ite (.pure _) ((keeps_eat _).bind fun _ => ?_))
  exact .ite ((keeps_expected .objectSeparator trivial).bind fun _ => .pure _) (.pure _)

theorem keeps_objectReference : Keeps I objectReference :=
  keeps_cursor.bind fun _ => (keeps_eat _).bind fun _ =>
    .ite (.pure _) ((keeps_repeatWhile keeps_nextObjectPart _).bind fun _ => .pure _)

theorem keeps_attributeList? {c : Char} {list : Production (List Node)}
    (h : attributeList? c = some list) : Keeps I list := by
  unfold attributeList? at h
  split_ifs at h <;> rw [← Option.some.inj h]
  · exact keeps_hashAttributes
  · exact keeps_htmlAttributes
  · exact keeps_objectReference

theorem keeps_nextAttributeList (s : Collected) : Keeps I (nextAttributeList s) := by
  refine keeps_peekChar.bind? (.pure _) fun c => ?_
  dsimp only
  cases hl : attributeList? c with
  | none => exact .pure _
  | some list => exact .ite (.pure _) ((keeps_attributeList? hl).bind fun _ => .pure _)

theorem keeps_tagAttributes : Keeps I tagAttributes :=
  (keeps_repeatWhile keeps_nextShorthand _).bind fun _ =>
    (keeps_repeatWhile keeps_nextAttributeList _).bind fun _ => .pure _

/-! ## Blocks -/

theorem keeps_enterBlockLine (line : List Char) : Keeps I (enterBlockLine line) :=
  keeps_nextLine.map.bind fun _ => .ite (.pure _)
    (keeps_get.bind fun _ => (keeps_skip _).bind fun _ => .pure _)

theorem keeps_block {body : Bool → Production α} (hb : ∀ blank, Keeps I (body blank)) :
    Keeps I (block body) :=
  keeps_get.bind fun _ => keeps_mapM (fun line => (keeps_enterBlockLine line).bind hb) _

theorem keeps_restAsText : Keeps I restAsText :=
  keeps_cursor.bind fun _ => keeps_restOfLine.bind fun _ => .pure _

theorem keeps_rawLines : Keeps I rawLines :=
  (keeps_block fun _ => keeps_restAsText.bind fun _ => .pure _).bind fun _ => .pure _

theorem keeps_filterLine (g : Grammar) (blank : Bool) : Keeps I (filterLine g blank) :=
  .ite (keeps_cursor.bind fun _ => keeps_restOfLine.map.bind fun _ => .pure _)
    (.ite ((keeps_interpolatedString _).bind fun _ => .pure _)
      (keeps_restAsText.bind fun _ => .pure _))

theorem keeps_filter? (g : Grammar) : Keeps I (filter? g) :=
  keeps_cursor.bind fun _ => keeps_eat?_bind (.pure _) fun _ _ hcursor hm =>
    (keeps_block (keeps_filterLine g)).bind fun _ =>
      (keeps_record (Kept.filterBlock _ hcursor hm)).bind fun _ => .pure _

/-! ## Statements -/

theorem keeps_condition? : Keeps I condition? := by
  refine keeps_cursor.bind fun c => ?_
  split
  · exact .pure _
  · exact .ite ((keeps_advanceTo _).bind fun _ => .pure _) (.pure _)

theorem keeps_comment? (g : Grammar) : Keeps I (comment? g) := by
  refine keeps_cursor.bind fun _ => (keeps_eat? _).bind? (.pure _) fun m => ?_
  -- with and without a condition the comment goes on with `go`
  dsimp -zeta only
  extract_lets rendered go
  have hgo (condition : Option (List Char)) : Keeps I (go condition) :=
    keeps_cursor.bind fun _ => keeps_restOfLine.bind fun _ =>
      .ite (.pure _) (keeps_rawLines.bind fun _ =>
        (keeps_record (Kept.silentBlock _ _)).bind fun _ => .pure _)
  exact .ite (keeps_condition?.bind hgo) (hgo none)

theorem keeps_inline? (g : Grammar) : Keeps I (inline? g) := by
  refine keeps_cursor.bind fun c => (keeps_eat? _).bind? ?_ fun m => ?_
  · refine (keeps_comment? g).bind? (keeps_peekChar.bind fun _ => ?_) fun _ => .pure _
    extract_lets go
    have hgo (u : Unit) : Keeps I (go u) := keeps_cursor.bind fun _ =>
      .ite (.pure _) ((keeps_interpolatedString _).bind fun _ => .pure _)
    exact .ite ((keeps_skip 1).bind hgo) (hgo ())
  · dsimp -zeta only
    extract_lets go
    have hgo (node : Node) : Keeps I (go node) := keeps_skipIndent.bind fun _ => .pure _
    exact .ite ((keeps_interpolatedString _).bind hgo) (keeps_restOfLine.bind fun _ => hgo _)

theorem keeps_run? : Keeps I run? :=
  keeps_cursor.bind fun _ => (keeps_eat? _).bind? (.pure _) fun _ =>
    keeps_skipIndent.bind fun _ => keeps_restOfLine.bind fun _ => .pure _

theorem keeps_nextFlag (d : Dialect) (flags : TagFlags) : Keeps I (nextFlag d flags) := by
  refine keeps_peekChar.bind fun c => ?_
  split
  · exact .pure _
  · exact (keeps_skip 1).bind fun _ => .pure _

theorem keeps_tag? (g : Grammar) : Keeps I (tag? g) := by
  refine keeps_cursor.bind fun c => (keeps_eat? _).bind? (.pure _) fun m =>
    keeps_tagAttributes.bind fun attributes =>
      (keeps_repeatWhile (keeps_nextFlag g.dialect) _).bind fun flags =>
        keeps_cursor.bind fun _ => keeps_skipIndent.bind fun _ =>
          (keeps_inline? g).bind? (.pure _) fun content => ?_
  exact .ite (keeps_refuse_bind Kept.selfClosing) (.pure _)

theorem keeps_doctype? (d : Dialect) : Keeps I (doctype? d) :=
  keeps_cursor.bind fun _ => (keeps_eat? _).bind? (.pure _) fun _ => .pure _

theorem keeps_literalLine? (g : Grammar) : Keeps I (literalLine? g) := by
  refine keeps_cursor.bind fun _ => ?_
  have hgo : Keeps I (do
      if ← eat .markup then return some (← interpolatedString .bare).wrap
      return none : Production (Option Node)) :=
    (keeps_eat _).bind fun _ =>
      .ite ((keeps_interpolatedString _).bind fun _ => .pure _) (.pure _)
  exact .ite ((keeps_eat _).bind fun _ =>
    .ite ((keeps_interpolatedString _).bind fun _ => .pure _) hgo) hgo

theorem keeps_extra? (g : Grammar) : Keeps I (extra? g) := by
  unfold extra?
  cases g.dialect with
  | haml => exact .pure _
  | jade =>
    exact (keeps_doctype? _).bind? (keeps_literalLine? g) fun _ => .pure _

theorem keeps_statement? (g : Grammar) : Keeps I (statement? g) := by
  refine keeps_firstOf fun p hp => ?_
  simp only [List.mem_cons, List.not_mem_nil, or_false] at hp
  rcases hp with rfl | rfl | rfl | rfl | rfl | rfl | rfl
  · exact keeps_extra? g
  · exact keeps_tag? g
  · exact keeps_filter? g
  · exact keeps_comment? g
  · exact keeps_run?
  · exact keeps_doctype? _
  · exact (keeps_inline? g).bind fun _ => .pure _

theorem keeps_entry (g : Grammar) : Keeps I (entry g) := by
  refine keeps_cursor.bind fun _ => .ite (.pure _) (keeps_skipIndent.bind fun _ =>
    keeps_get.bind fun _ => (keeps_checkIndent _ _).bind fun _ =>
      (keeps_statement? g).bind? (keeps_expected _ trivial) fun _ =>
        keeps_get.bind fun _ => .pure _)

end Production

end TemplateTree
