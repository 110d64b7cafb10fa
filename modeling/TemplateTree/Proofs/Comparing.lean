import TemplateTree.Proofs.Reads
import TemplateTree.Proofs.Relocation
import TemplateTree.Text.Multiline

/-!
# Comparing two readings

Two readings that see the same text from corresponding places come to corresponding results. A
`Correspondence` says what corresponds: `first` and `second` bring the positions of both sources to a
common form. Of the first source it also says where positions lie and which text they are the start
of. The second source may go on after the end of the first one.

`Agree` relates the outcomes of two productions. A failure of the first one need not be matched where
the readings are allowed to differ in what is ahead.
-/

set_option autoImplicit false

namespace TemplateTree

/-- Where a column is reported that belongs to the line with the index `anchor`. -/
def Cursor.placeOn (c : Cursor) (anchor column : Int) : Position :=
  ({ c with anchor } : Cursor).positionAt column

structure Correspondence where
  first : Position → Position
  second : Position → Position
  /-- Where a position of the first source may lie. -/
  lies : Position → Prop
  /-- What a line of the first source says from a position on. -/
  reads : List Char → Position → Prop
  /-- The lines that only the second source has. -/
  extra : List (List Char)

namespace Correspondence
variable (K : Correspondence)

def Meets (p p' : Position) : Prop := K.first p = K.second p' ∧ K.lies p

/-- Corresponding places for the columns of a line. -/
structure OnLine (place place' : Int → Position) (line : List Char) : Prop where
  meets (column : Int) : K.Meets (place column) (place' column)
  reads (n : Nat) : n ≤ line.length → K.reads (line.drop n) (place n)

/-- Cursors with the same lines ahead. A line that may be joined may become any text. -/
structure Ahead (c c' : Cursor) : Prop where
  filename : c'.filename = c.filename
  upcoming : c'.upcoming = c.upcoming ++ K.extra
  lines (k : Nat) (line : List Char) : c.upcoming[k]? = some line →
    K.OnLine (c.placeOn (c.entered + k)) (c'.placeOn (c'.entered + k)) line
  joined (k : Nat) (line text : List Char) : c.upcoming[k]? = some line → Text.isMultiline line →
    K.OnLine (c.placeOn (c.entered + k)) (c'.placeOn (c'.entered + k)) text

/-- Cursors at the same place of lines that read the same. -/
structure Together (c c' : Cursor) : Prop extends K.Ahead c c' where
  line : c'.line = c.line
  column : c'.column = c.column
  inside : c.Inside
  inside' : c'.Inside
  here : K.OnLine (c.placeOn c.anchor) (c'.placeOn c'.anchor) c.line

/-- Refusals for the same cause at corresponding places. -/
def Refused (e e' : Failure) : Prop :=
  ∃ s s' : SyntaxError, e = .refused s ∧ e' = .refused s' ∧ s'.cause = s.cause ∧
    s'.filename = s.filename ∧ s'.column = s.column ∧
      ∃ offset offset' : Int, K.first (.of s.line s.column offset) =
        K.second (.of s'.line s'.column offset')

/-- Nodes of the same shape at corresponding places. -/
def Same (n n' : Node) : Prop := n.relocate K.first = n'.relocate K.second

/-- Where the first outcome is a success, the second one is too. Where it is a failure, the second
one is alike, unless the failure is `lost`. -/
def Outcomes {α : Type} (lost : Prop) (S : α → α → Reading → Reading → Prop)
    (E : Reading → Reading → Prop) :
    Except Failure α × Reading → Except Failure α × Reading → Prop
  | (.ok a, s), (.ok a', s') => S a a' s s'
  | (.error e, s), (.error e', s') => lost ∨ K.Refused e e' ∧ E s s'
  | (.error _, _), (.ok _, _) => lost
  | (.ok _, _), (.error _, _) => False

end Correspondence

/-- A correspondence with what the readings know of the lines before. -/
structure Comparison extends Correspondence where
  indents : Indent × Indent
  outlines : Outline × Outline

namespace Comparison
variable (K : Comparison)

/-- What the readings know of the lines before stays as it is. -/
structure Frame (r r' : Reading) : Prop where
  indent : r.indent = K.indents.1
  indent' : r'.indent = K.indents.2
  outline : r.outline = K.outlines.1
  outline' : r'.outline = K.outlines.2

structure Alike (r r' : Reading) : Prop extends K.Frame r r' where
  cursor : K.Together r.cursor r'.cursor

def Agree {α : Type} (lost : Prop) (p p' : Production α) (r r' : Reading)
    (Q : α → α → Reading → Reading → Prop) : Prop :=
  K.Outcomes lost (fun a a' s s' => K.Alike s s' ∧ Q a a' s s') K.Frame (p.run r) (p'.run r')

end Comparison

namespace Text

theorem extent_append (lines others : List (List Char)) :
    extent (lines ++ others) = extent lines + extent others := by
  induction lines with
  | nil => simp [extent]
  | cons line lines ih =>
    rw [List.cons_append, extent, extent, ih]
    omega

end Text

namespace Correspondence
variable {K : Correspondence}

section Cursors
variable {c c' : Cursor} {line : List Char}

theorem Together.rest (h : K.Together c c') : c'.rest = c.rest := by
  rw [Cursor.rest, Cursor.rest, h.line, h.column]

theorem Together.isEnd (h : K.Together c c') : c'.isEnd = c.isEnd := by
  rw [Cursor.isEnd, Cursor.isEnd, h.line, h.column]

theorem Together.remaining (h : K.Together c c') :
    c'.remaining = c.remaining + Text.extent K.extra := by
  have hupcoming : c'.ahead.map (·.text) = c.ahead.map (·.text) ++ K.extra := h.upcoming
  rw [Cursor.remaining, Cursor.remaining, h.line, h.column, hupcoming, Text.extent_append]
  omega

theorem Together.meets (h : K.Together c c') (column : Int) :
    K.Meets (c.positionAt column) (c'.positionAt column) := h.here.meets column

theorem Together.position (h : K.Together c c') : K.Meets c.position c'.position := by
  rw [Cursor.position, Cursor.position, h.column]
  exact h.meets c.column

/-- The line says what is left of it. -/
theorem Together.reads (h : K.Together c c') : K.reads c.rest c.position := by
  obtain ⟨n, hn, hle⟩ := Cursor.exists_column h.inside
  rw [Cursor.position, Cursor.rest, hn, Text.tail_natCast]
  exact h.here.reads n hle

theorem Together.reads_drop (h : K.Together c c') {n : Nat} (hn : n ≤ c.rest.length) :
    K.reads (c.rest.drop n) (c.positionAt (c.column + n)) := by
  obtain ⟨k, hk, hle⟩ := Cursor.exists_column h.inside
  have hrest : c.rest = c.line.drop k := by rw [Cursor.rest, hk, Text.tail_natCast]
  rw [hrest, List.length_drop] at hn
  have hreads := h.here.reads (k + n) (by omega)
  rw [hrest, List.drop_drop, hk]
  exact_mod_cast hreads

/-- Both cursors move to the same column. -/
theorem Together.at_column (h : K.Together c c') {column : Int} (nonneg : 0 ≤ column)
    (le : column ≤ c.line.length) : K.Together { c with column } { c' with column } where
  filename := h.filename
  upcoming := h.upcoming
  lines := h.lines
  joined := h.joined
  line := h.line
  column := rfl
  inside := ⟨nonneg, le, h.inside.anchor_nonneg, h.inside.anchor_lt⟩
  inside' := ⟨nonneg, by rw [h.line]; exact le, h.inside'.anchor_nonneg, h.inside'.anchor_lt⟩
  here := h.here

theorem Together.skip (h : K.Together c c') (n : Nat) : K.Together (c.skip n) (c'.skip n) := by
  have hnonneg := h.inside.nonneg
  have hskip : c'.skip n = { c' with column := (c.skip n).column } := by
    simp only [Cursor.skip, h.column, h.line]
  rw [hskip]
  exact h.at_column (by omega) (Int.min_le_right _ _)

theorem Together.skipIndent (h : K.Together c c') : K.Together c.skipIndent c'.skipIndent := by
  unfold Cursor.skipIndent
  rw [Cursor.inLine_eq h.inside, Cursor.inLine_eq h.inside', h.rest]
  exact h.skip _

theorem Together.skipRest (h : K.Together c c') : K.Together c.skipRest c'.skipRest := by
  have hskip : c'.skipRest = { c' with column := c.skipRest.column } := by
    simp only [Cursor.skipRest, h.line]
  rw [hskip]
  exact h.at_column (Int.natCast_nonneg _) (Int.le_refl _)

theorem Ahead.peekLine (h : K.Ahead c c') (hp : c.peekLine = some line) :
    c'.peekLine = some line := by
  rw [Cursor.peekLine_eq] at hp ⊢
  rw [h.upcoming, List.head?_append, hp]
  rfl

/-- The lines that are ahead of a line that both cursors enter. -/
theorem Ahead.nextLine (h : K.Ahead c c') (hp : c.peekLine = some line) :
    K.Together c.nextLine.2 c'.nextLine.2 := by
  have hp' := h.peekLine hp
  have hhead : c.upcoming[0]? = some line := by
    rw [← List.head?_eq_getElem?, ← Cursor.peekLine_eq, hp]
  have htail : c.upcoming = line :: c.upcoming.tail := by
    rw [Cursor.peekLine_eq] at hp
    exact (List.cons_head?_tail hp).symm
  have hnext := Cursor.upcoming_nextLine htail
  have hnext' : c'.nextLine.2.upcoming = c.upcoming.tail ++ K.extra := by
    apply Cursor.upcoming_nextLine
    rw [h.upcoming, htail]
    rfl
  have hinside := (Cursor.onward_nextLine hp).1.inside
  have hinside' := (Cursor.onward_nextLine hp').1.inside
  have hlater : ∀ k l, c.upcoming.tail[k]? = some l → c.upcoming[k + 1]? = some l := by
    intro k l hl
    rwa [htail, List.getElem?_cons_succ]
  have hstart : K.OnLine (c.placeOn c.entered) (c'.placeOn c'.entered) line := by
    simpa using h.lines 0 line hhead
  rw [Cursor.nextLine_eq hp] at hnext hinside ⊢
  rw [Cursor.nextLine_eq hp'] at hnext' hinside' ⊢
  dsimp only at hnext hnext' hinside hinside' ⊢
  exact {
    filename := h.filename
    upcoming := by rw [hnext, hnext']
    lines := by
      intro k l hl
      rw [hnext] at hl
      have hline := h.lines (k + 1) l (hlater k l hl)
      have hk : ∀ n : Nat, ((n + 1 : Nat) : Int) + k = n + ((k + 1 : Nat) : Int) := by omega
      rw [← hk, ← hk] at hline
      exact hline
    joined := by
      intro k l text hl hm
      rw [hnext] at hl
      have hline := h.joined (k + 1) l text (hlater k l hl) hm
      have hk : ∀ n : Nat, ((n + 1 : Nat) : Int) + k = n + ((k + 1 : Nat) : Int) := by omega
      rw [← hk, ← hk] at hline
      exact hline
    line := rfl
    column := rfl
    inside := hinside
    inside' := hinside'
    here := hstart }

/-- Errors with the same cause at the place of both cursors. -/
theorem Together.refused (h : K.Together c c') (cause : SyntaxError.Cause) :
    K.Refused (.refused (c.error cause)) (.refused (c'.error cause)) := by
  have hmeets := (h.here.meets c.column).1
  refine ⟨_, _, rfl, rfl, rfl, h.filename, ?_, c.lineOffset + c.column, c'.lineOffset + c.column,
    ?_⟩
  · simp only [Cursor.error, h.column]
  · simp only [Cursor.error, h.column]
    exact hmeets

end Cursors

section Outcomes
variable {α β : Type} {lost : Prop} {p p' : Production α} {f f' : α → Production β} {r r' : Reading}
  {S S' : α → α → Reading → Reading → Prop} {T : β → β → Reading → Reading → Prop}
  {E : Reading → Reading → Prop}

theorem Outcomes.of_lost (h : lost) (e : Failure) (s : Reading)
    (outcome : Except Failure α × Reading) : K.Outcomes lost S E (.error e, s) outcome := by
  rcases outcome with ⟨_ | _, _⟩
  · exact Or.inl h
  · exact h

theorem Outcomes.imp {lost' : Prop} {E' : Reading → Reading → Prop}
    {x x' : Except Failure α × Reading} (h : K.Outcomes lost S E x x') (hlost : lost → lost')
    (hs : ∀ a a' s s', S a a' s s' → S' a a' s s') (he : ∀ s s', E s s' → E' s s') :
    K.Outcomes lost' S' E' x x' := by
  rcases x with ⟨e | a, s⟩ <;> rcases x' with ⟨e' | a', s'⟩
  · exact Or.imp hlost (fun hr => ⟨hr.1, he s s' hr.2⟩) h
  · exact hlost h
  · exact h
  · exact hs a a' s s' h

section Read
variable {x x' : Except Failure α × Reading} {a : α} {e : Failure} {s : Reading}

theorem Outcomes.exists_of_ok (h : K.Outcomes lost S E x x') (hx : x = (.ok a, s)) :
    ∃ a' s', x' = (.ok a', s') ∧ S a a' s s' := by
  subst hx
  rcases x' with ⟨_ | a', s'⟩
  · exact h.elim
  · exact ⟨a', s', rfl, h⟩

theorem Outcomes.exists_of_ok_second (h : K.Outcomes False S E x x') (hx : x' = (.ok a, s)) :
    ∃ a₀ s₀, x = (.ok a₀, s₀) ∧ S a₀ a s₀ s := by
  subst hx
  rcases x with ⟨_ | a₀, s₀⟩
  · exact h.elim
  · exact ⟨a₀, s₀, rfl, h⟩

theorem Outcomes.exists_of_error (h : K.Outcomes False S E x x') (hx : x = (.error e, s)) :
    ∃ e' s', x' = (.error e', s') ∧ K.Refused e e' := by
  subst hx
  rcases x' with ⟨e' | _, s'⟩
  · exact ⟨e', s', rfl, (h.resolve_left id).1⟩
  · exact h.elim

end Read

/-- The outcomes are compared unless the first one is a success of some kind. -/
theorem Outcomes.bind_unless {P : β → Prop} (hp : K.Outcomes lost S E (p.run r) (p'.run r'))
    (hf : ∀ a a' s s', S a a' s s' → (∃ b u, (f a).run s = (.ok b, u) ∧ P b) ∨
      K.Outcomes lost T E ((f a).run s) ((f' a').run s')) :
    (∃ b u, (p >>= f).run r = (.ok b, u) ∧ P b) ∨
      K.Outcomes lost T E ((p >>= f).run r) ((p' >>= f').run r') := by
  rw [Production.run_bind, Production.run_bind]
  generalize p.run r = x at hp ⊢
  generalize p'.run r' = x' at hp ⊢
  rcases x with ⟨e | a, s⟩ <;> rcases x' with ⟨e' | a', s'⟩
  · exact Or.inr hp
  · exact Or.inr (Outcomes.of_lost hp e s _)
  · exact hp.elim
  · exact hf a a' s s' hp

theorem Outcomes.bind (hp : K.Outcomes lost S E (p.run r) (p'.run r'))
    (hf : ∀ a a' s s', S a a' s s' → K.Outcomes lost T E ((f a).run s) ((f' a').run s')) :
    K.Outcomes lost T E ((p >>= f).run r) ((p' >>= f').run r') := by
  have hnone : ¬ ∃ b u, (p >>= f).run r = (.ok b, u) ∧ False := fun ⟨_, _, _, h⟩ => h
  exact (Outcomes.bind_unless hp fun a a' s s' hs => Or.inr (hf a a' s s' hs)).resolve_left hnone

end Outcomes

end Correspondence

namespace Comparison
open Production Correspondence

variable {K : Comparison}

section Rules
variable {α β : Type} {lost lost' : Prop} {p p' : Production α} {f f' : α → Production β}
  {r r' : Reading} {Q Q' : α → α → Reading → Reading → Prop} {R : β → β → Reading → Reading → Prop}

theorem Agree.imp (h : K.Agree lost p p' r r' Q)
    (hq : ∀ a a' s s', K.Alike s s' → Q a a' s s' → Q' a a' s s') : K.Agree lost p p' r r' Q' :=
  Outcomes.imp h id (fun a a' s s' hs => ⟨hs.1, hq a a' s s' hs.1 hs.2⟩) fun _ _ hf => hf

theorem Agree.bind (hp : K.Agree lost p p' r r' Q)
    (hf : ∀ a a' s s', K.Alike s s' → Q a a' s s' → K.Agree lost (f a) (f' a') s s' R) :
    K.Agree lost (p >>= f) (p' >>= f') r r' R :=
  Outcomes.bind hp fun a a' s s' hs => hf a a' s s' hs.1 hs.2

/-- What the first production gives is what it gives. -/
theorem Agree.and_run (h : K.Agree lost p p' r r' Q) :
    K.Agree lost p p' r r' fun a a' s s' => Q a a' s s' ∧ p.run r = (.ok a, s) := by
  unfold Agree at *
  generalize p.run r = x at h ⊢
  generalize p'.run r' = x' at h ⊢
  rcases x with ⟨e | a, s⟩ <;> rcases x' with ⟨e' | a', s'⟩
  · exact h
  · exact h
  · exact h
  · exact ⟨h.1, h.2, rfl⟩

theorem Agree.pure {a a' : α} (h : K.Alike r r') (hq : Q a a' r r') :
    K.Agree lost (pure a) (pure a') r r' Q := ⟨h, hq⟩

theorem Agree.refuse {cause : SyntaxError.Cause} (h : K.Alike r r') :
    K.Agree lost (refuse (r.cursor.error cause)) (refuse (r'.cursor.error cause)) r r' Q :=
  Or.inr ⟨h.cursor.refused cause, h.toFrame⟩

theorem Agree.of_lost (hlost : lost) {e : Failure} {s : Reading} (he : p.run r = (.error e, s)) :
    K.Agree lost p p' r r' Q := by
  unfold Agree
  rw [he]
  exact Outcomes.of_lost hlost e s _

theorem agree_cursor_bind {f f' : Cursor → Production β} :
    K.Agree lost (cursor >>= f) (cursor >>= f') r r' R ↔
      K.Agree lost (f r.cursor) (f' r'.cursor) r r' R := by
  unfold Agree
  rw [run_bind, run_bind]
  rfl

theorem agree_get_bind {f f' : Reading → Production β} :
    K.Agree lost (get >>= f) (get >>= f') r r' R ↔ K.Agree lost (f r) (f' r') r r' R := by
  unfold Agree
  rw [run_bind, run_bind]
  rfl

theorem agree_onLine_bind {a a' : α} :
    K.Agree lost (onLine (.ok a) >>= f) (onLine (.ok a') >>= f') r r' R ↔
      K.Agree lost (f a) (f' a') r r' R := by
  unfold Agree
  rw [run_bind, run_bind]
  rfl

theorem Alike.move (h : K.Alike r r') {c c' : Cursor} (hc : K.Together c c') :
    K.Alike { r with cursor := c } { r' with cursor := c' } :=
  ⟨⟨h.indent, h.indent', h.outline, h.outline'⟩, hc⟩

theorem agree_setCursor {c c' : Cursor} (h : K.Frame r r') (hc : K.Together c c') :
    K.Agree lost (setCursor c) (setCursor c') r r' fun _ _ s s' =>
      s = { r with cursor := c } ∧ s' = { r' with cursor := c' } :=
  ⟨⟨⟨h.indent, h.indent', h.outline, h.outline'⟩, hc⟩, rfl, rfl⟩

theorem agree_modifyCursor {m : Cursor → Cursor} (h : K.Alike r r')
    (hc : K.Together (m r.cursor) (m r'.cursor)) :
    K.Agree lost (modifyCursor m) (modifyCursor m) r r' fun _ _ s s' =>
      s = { r with cursor := m r.cursor } ∧ s' = { r' with cursor := m r'.cursor } :=
  ⟨h.move hc, rfl, rfl⟩

theorem agree_record {entry entry' : LogRecord} (h : K.Alike r r') :
    K.Agree lost (record entry) (record entry') r r' fun _ _ _ _ => True :=
  ⟨⟨⟨h.indent, h.indent', h.outline, h.outline'⟩, h.cursor⟩, trivial⟩

/-- A production that is tried gives its value or nothing, as the other one does. -/
theorem agree_attempt (hp : K.Agree False p p' r r' Q) :
    ∃ a a' s s', (attempt p).run r = (.ok a, s) ∧ (attempt p').run r' = (.ok a', s') ∧
      K.Frame s s' ∧ ((a = none ∧ a' = none) ∨
        ∃ b b', a = some b ∧ a' = some b' ∧ K.Alike s s' ∧ Q b b' s s') := by
  unfold Agree at hp
  unfold attempt
  rw [ExceptT.run_mk, ExceptT.run_mk]
  generalize p.run r = x at hp ⊢
  generalize p'.run r' = x' at hp ⊢
  rcases x with ⟨e | a, s⟩ <;> rcases x' with ⟨e' | a', s'⟩
  · obtain ⟨⟨x, x', rfl, rfl, -⟩, hframe⟩ := hp.resolve_left id
    refine ⟨none, none, _, _, rfl, rfl, ?_, Or.inl ⟨rfl, rfl⟩⟩
    exact ⟨hframe.indent, hframe.indent', hframe.outline, hframe.outline'⟩
  · exact hp.elim
  · exact hp.elim
  · exact ⟨some a, some a', s, s', rfl, rfl, hp.1.toFrame, Or.inr ⟨a, a', rfl, rfl, hp.1, hp.2⟩⟩

/-- What both repetitions of a loop come to. -/
def Repeats (Inv Q : α → α → Prop) : ForInStep α → ForInStep α → Prop
  | .done a, .done a' => Q a a'
  | .yield a, .yield a' => Inv a a'
  | _, _ => False

/-- Induction along two loops. As much is left for the one as for the other, so that they stop
together. -/
theorem agree_repeatWhile {step step' : α → Production (ForInStep α)} {Q : α → α → Prop}
    (Inv : α → α → Prop) (hdone : ∀ a a', Inv a a' → Q a a')
    (hstep : ∀ a a' s s', K.Alike s s' → Inv a a' →
      K.Agree lost (step a) (step' a') s s' fun x x' _ _ => Repeats Inv Q x x') :
    ∀ a a' s s', K.Alike s s' → Inv a a' →
      K.Agree lost (repeatWhile step a) (repeatWhile step' a') s s' fun b b' _ _ => Q b b' := by
  intro a a' s s' h hinv
  unfold repeatWhile Agree
  rw [ExceptT.run_mk, ExceptT.run_mk]
  induction hn : s.cursor.remaining using Nat.strongRecOn generalizing a a' s s' with
  | ind n ih =>
    subst hn
    have hs := hstep a a' s s' h hinv
    unfold Agree at hs
    unfold iterate
    generalize (step a).run s = y at hs ⊢
    generalize (step' a').run s' = y' at hs ⊢
    rcases y with ⟨e | x, t⟩ <;> rcases y' with ⟨e' | x', t'⟩
    · exact hs
    · exact Outcomes.of_lost hs e t _
    · exact hs.elim
    · obtain ⟨ht, hx⟩ := hs
      have hleft := h.cursor.remaining
      have hleft' := ht.cursor.remaining
      cases x with
      | done b =>
        cases x' with
        | done b' => exact ⟨ht, hx⟩
        | yield b' => exact hx.elim
      | yield b =>
        cases x' with
        | done b' => exact hx.elim
        | yield b' =>
          dsimp only
          -- both have the same more to read than what is ahead of the first, so both stop or none
          by_cases hlt : t.cursor.remaining < s.cursor.remaining
          · rw [if_pos hlt, if_pos (by omega)]
            exact ih _ hlt b b' t t' ht hx rfl
          · rw [if_neg hlt, if_neg (by omega)]
            exact ⟨ht, hdone b b' hx⟩

end Rules

section Primitives
variable {β : Type} {lost : Prop} {r r' : Reading} (h : K.Alike r r')
include h

theorem agree_eat? (p : Pattern) : K.Agree lost (eat? p) (eat? p) r r' fun m m' s s' =>
    (m = none ∧ m' = none ∧ p r.cursor.rest = none ∧ s = r ∧ s' = r') ∨
      ∃ x, m = some x ∧ m' = some x ∧ p r.cursor.rest = some x ∧ s = r.skip x.length ∧
        s' = r'.skip x.length := by
  unfold eat?
  rw [agree_cursor_bind, Cursor.eat?_eq h.cursor.inside, Cursor.eat?_eq h.cursor.inside',
    h.cursor.rest]
  cases hp : p r.cursor.rest with
  | none => exact Agree.pure h (Or.inl ⟨rfl, rfl, rfl, rfl, rfl⟩)
  | some m =>
    apply Agree.bind (agree_setCursor h.toFrame (h.cursor.skip m.length))
    rintro _ _ s s' hs ⟨rfl, rfl⟩
    exact Agree.pure hs (Or.inr ⟨m, rfl, rfl, rfl, rfl, rfl⟩)

theorem agree_eat (p : Pattern) : K.Agree lost (eat p) (eat p) r r' fun b b' s s' =>
    (b = false ∧ b' = false ∧ p r.cursor.rest = none ∧ s = r ∧ s' = r') ∨
      ∃ x, b = true ∧ b' = true ∧ p r.cursor.rest = some x ∧ s = r.skip x.length ∧
        s' = r'.skip x.length := by
  apply Agree.bind (agree_eat? h p)
  intro _ _ s s' hs hq
  rcases hq with ⟨rfl, rfl, hp, rfl, rfl⟩ | ⟨m, rfl, rfl, hp, rfl, rfl⟩
  · exact Agree.pure hs (Or.inl ⟨rfl, rfl, hp, rfl, rfl⟩)
  · exact Agree.pure hs (Or.inr ⟨m, rfl, rfl, hp, rfl, rfl⟩)

theorem agree_peekChar_bind {f f' : Option Char → Production β}
    {R : β → β → Reading → Reading → Prop} :
    K.Agree lost (peekChar >>= f) (peekChar >>= f') r r' R ↔
      K.Agree lost (f r.cursor.rest.head?) (f' r.cursor.rest.head?) r r' R := by
  unfold peekChar
  rw [bind_assoc, bind_assoc, agree_cursor_bind, Cursor.peekChar_eq h.cursor.inside,
    Cursor.peekChar_eq h.cursor.inside', h.cursor.rest, agree_onLine_bind]

theorem agree_expected {Q : β → β → Reading → Reading → Prop} (what : Expected) :
    K.Agree lost (expected what) (expected what) r r' Q := by
  unfold expected
  rw [agree_cursor_bind, Cursor.unexpected_eq h.cursor.inside, Cursor.unexpected_eq h.cursor.inside',
    h.cursor.rest, agree_onLine_bind]
  exact Agree.refuse h

theorem agree_expected_bind {α : Type} {f f' : α → Production β}
    {R : β → β → Reading → Reading → Prop} (what : Expected) :
    K.Agree lost (expected what >>= f) (expected what >>= f') r r' R :=
  Agree.bind (agree_expected (Q := fun _ _ _ _ => False) h what) fun _ _ _ _ _ hf => hf.elim

theorem agree_advanceTo {target : Int} (ahead : r.cursor.column ≤ target) :
    K.Agree lost (advanceTo target) (advanceTo target) r r' fun _ _ _ _ => True := by
  have ahead' : r'.cursor.column ≤ target := by rwa [h.cursor.column]
  have hmin : min target (r'.cursor.line.length : Int) = min target r.cursor.line.length := by
    rw [h.cursor.line]
  unfold advanceTo
  rw [agree_cursor_bind, Cursor.advanceTo_of_le ahead, Cursor.advanceTo_of_le ahead', hmin]
  have hnonneg := h.cursor.inside.nonneg
  have hmin_nonneg : 0 ≤ min target (r.cursor.line.length : Int) := by omega
  have hto := h.cursor.at_column hmin_nonneg (by omega)
  exact (agree_setCursor h.toFrame hto).imp fun _ _ _ _ _ _ => trivial

theorem agree_skipIndent : K.Agree lost skipIndent skipIndent r r' fun _ _ _ _ => True :=
  (agree_modifyCursor h h.cursor.skipIndent).imp fun _ _ _ _ _ _ => trivial

theorem agree_restOfLine : K.Agree lost restOfLine restOfLine r r' fun text text' _ _ =>
    text = r.cursor.rest ∧ text' = r.cursor.rest := by
  unfold restOfLine
  rw [agree_cursor_bind]
  apply Agree.bind (agree_setCursor h.toFrame h.cursor.skipRest)
  rintro _ _ s s' hs -
  exact Agree.pure hs ⟨rfl, h.cursor.rest⟩

theorem agree_nextLine {line : List Char} (hp : r.cursor.peekLine = some line) :
    K.Agree lost nextLine nextLine r r' fun _ _ s s' =>
      s = { r with cursor := r.cursor.nextLine.2 } ∧
        s' = { r' with cursor := r'.cursor.nextLine.2 } := by
  unfold nextLine
  rw [agree_cursor_bind]
  apply Agree.bind (agree_setCursor h.toFrame (h.cursor.nextLine hp))
  exact fun _ _ s s' hs hq => Agree.pure hs hq

end Primitives

end Comparison

end TemplateTree
