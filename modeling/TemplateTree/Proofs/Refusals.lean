import TemplateTree.Proofs.Parallel
import TemplateTree.Proofs.Reporting

/-!
# The line of a refused statement

A statement is refused where the cursor stands when it has been read. That is the line it starts
with unless reading it went on to further lines.
-/

set_option autoImplicit false

namespace TemplateTree

/-- How many of the lines belong to the statement that the first of them starts: those that are
joined to it. -/
def Text.groupSize : List (List Char) → Nat
  | [] => 0
  | line :: rest => if isMultiline line then (joinTail rest).2 + 1 else 1

/-- The cursor after a line was entered and joined with those that belong to it. -/
structure Cursor.EntersGroup (c c' : Cursor) (size : Nat) : Prop where
  firstLine : c'.firstLine = c.firstLine
  lines : c'.lines = c.lines
  entered : c'.entered = c.entered + size
  anchor : c'.anchor = c.entered
  size_pos : 0 < size
  entered_le : c'.entered ≤ c.lines.length

namespace Cursor
variable {c : Cursor} {line : List Char}

theorem entersGroup_joined (hp : c.peekLine = some line) :
    c.EntersGroup c.nextLine.2.joined (Text.groupSize c.upcoming) := by
  have hups : c.upcoming = line :: c.nextLine.2.upcoming := by
    rw [upcoming_of_peekLine hp, ← upcoming_nextLine (upcoming_of_peekLine hp)]
  have hlength : c.upcoming.length = c.lines.length - c.entered := by
    simp [upcoming, ahead]
  rw [hups, List.length_cons] at hlength
  have hnext := nextLine_eq hp
  unfold joined
  rw [hups, Text.groupSize]
  rw [show c.nextLine.2.line = line by rw [hnext]]
  split
  · have hle := Text.joinTail_le c.nextLine.2.upcoming
    rcases hj : Text.joinTail c.nextLine.2.upcoming with ⟨tail, count⟩
    rw [hj] at hle
    dsimp only at hle ⊢
    refine ⟨?_, ?_, ?_, ?_, by omega, ?_⟩ <;> simp only [replaceLine, lineIndex, hnext] <;> omega
  · refine ⟨?_, ?_, ?_, ?_, by omega, ?_⟩ <;> simp only [hnext]
    omega

end Cursor

namespace Cursor.EntersGroup
variable {c c' c'' : Cursor} {size : Nat}

/-- Further moves of the cursor report the line that the group starts with, or, where they enter
lines, the last of these. -/
theorem lineNumber (h : c.EntersGroup c' size) (hm : c'.Moved c'') : ∃ further,
    c''.entered = c.entered + size + further ∧
      c''.lineNumber = c.firstLine + if further = 0 then c.entered else c''.entered - 1 := by
  have hentered := h.entered
  have hanchor := h.anchor
  have hle := h.entered_le
  have hpos := h.size_pos
  have hfirst := hm.firstLine.trans h.firstLine
  have hreported := hm.reported
  rw [h.lines] at hreported
  refine ⟨c''.entered - (c.entered + size), by omega, ?_⟩
  unfold Cursor.lineNumber
  rw [hfirst]
  split <;> omega

end Cursor.EntersGroup

open Production

variable {g : Grammar} {source filename : String} {firstLine : Int} {e : SyntaxError}

theorem exists_peekLine_of_error {r r' : Reading} {e : Failure}
    (h : (nextEntry g).run r = (.error e, r')) : ∃ line, r.cursor.peekLine = some line := by
  cases hp : r.cursor.peekLine with
  | some line => exact ⟨line, rfl⟩
  | none =>
    rw [run_nextEntry_of_none hp] at h
    cases h

/-- A step that refuses a template does so after it entered the lines of a group and maybe moved
on. -/
theorem Ends.moved {r r' : Reading} (h : Ends g r (.error (.refused e)) r') :
    (∃ line, r.cursor.peekLine = some line) ∧ r.cursor.nextLine.2.joined.Moved r'.cursor ∧
      ∃ cause, e = r'.cursor.error cause := by
  have hentry (hp : ∃ line, r.cursor.peekLine = some line) {x : Except Failure (Option Entry)}
      {s : Reading} (hs : (nextEntry g).run r = (x, s)) :
      (Invariant.moved r.cursor.nextLine.2.joined).Holds s ∧
        ∀ f, x = .error f → (Invariant.moved r.cursor.nextLine.2.joined).Allows s f := by
    obtain ⟨line, hp⟩ := hp
    rw [run_nextEntry hp] at hs
    have hr := ((keeps_entry g).bind fun said => .pure (some said))
      { r with cursor := r.cursor.nextLine.2.joined } (Invariant.holds_moved (.refl _))
    unfold Ensures at hr
    rw [hs] at hr
    cases x with
    | error f => exact ⟨hr.1, fun _ hf => Except.error.inj hf ▸ hr.2⟩
    | ok _ => exact ⟨hr, fun _ hf => by cases hf⟩
  cases h with
  | unread reads =>
    have hp := exists_peekLine_of_error reads
    obtain ⟨hm, hallowed⟩ := hentry hp reads
    obtain ⟨cause, -, heq⟩ := hallowed _ rfl e rfl
    exact ⟨hp, hm.cursor, cause, heq⟩
  | @unplaced said _ s _ reads places =>
    have hp := exists_peekLine reads
    obtain ⟨hm, -⟩ := hentry hp reads
    have hr := keeps_place (I := .moved r.cursor.nextLine.2.joined) said s ⟨hm.cursor, hm.log⟩
    unfold Ensures at hr
    rw [places] at hr
    obtain ⟨cause, -, heq⟩ := hr.2 e rfl
    exact ⟨hp, hr.1.cursor, cause, heq⟩

/-- A template is refused for the statement after its first `start` lines. The statement starts with
`size` lines that are joined, and before it was refused so many further lines were entered. -/
structure RefusedAfter (g : Grammar) (source filename : String) (firstLine : Int) (e : SyntaxError)
    (start size further : Nat) : Prop where
  reached : ∃ es r r', Run g (.opening g source filename firstLine) es r ∧
    Ends g r (.error (.refused e)) r' ∧ r.cursor.entered = start ∧
    r'.cursor.entered = start + size + further
  group : size = Text.groupSize (((Text.Line.ofSource source.toList).map (·.text)).drop start)

/-- A template is refused at the line that the refused statement starts with if and only if no line
was entered after those that it starts with. Otherwise it is refused at the last line that was
entered. -/
theorem refusal_line_iff (h : (readTemplate g source filename firstLine).1 = .error (.refused e)) :
    ∃ start size further, RefusedAfter g source filename firstLine e start size further ∧
      (e.line = firstLine + start ↔ further = 0) ∧
      (0 < further → e.line = firstLine + (start + size + further - 1)) := by
  obtain ⟨es, r, result, r', hrun, hends, hresult, -⟩ :=
    exists_run_readTemplate g source filename firstLine
  obtain rfl : result = .error (.refused e) := by
    rw [h] at hresult
    cases result with
    | error f => exact congrArg Except.error (Except.error.inj hresult).symm
    | ok _ => cases hresult
  obtain ⟨⟨line, hp⟩, hm, cause, rfl⟩ := hends.moved
  have hgroup := Cursor.entersGroup_joined hp
  have hpos := hgroup.size_pos
  obtain ⟨further, hentered, hline⟩ := hgroup.lineNumber hm
  have hsettled := hrun.settled
  refine ⟨r.cursor.entered, Text.groupSize r.cursor.upcoming, further,
    ⟨⟨es, r, r', hrun, hends, rfl, hentered⟩, ?_⟩, ?_⟩
  · rw [← hsettled.lines, ← List.map_drop]
    rfl
  · rw [hsettled.firstLine] at hline
    change (r'.cursor.lineNumber = _ ↔ _) ∧ (_ → r'.cursor.lineNumber = _)
    rw [hline, hentered]
    by_cases hf : further = 0
    · simp [hf]
    · rw [if_neg hf]
      omega

/-- What a template was refused with. -/
def refusal? {α : Type} : Except Failure α → Option SyntaxError
  | .error (.refused e) => some e
  | _ => none

/-- A joined statement below a text. -/
theorem refusal_line_iff_joined : ∃ e,
    (readTemplate (.standard .haml) "a\n  b |\n  c |" "t" 1).1 = .error (.refused e) ∧
      ∃ start size further,
        RefusedAfter (.standard .haml) "a\n  b |\n  c |" "t" 1 e start size further ∧
        (e.line = 1 + start ↔ further = 0) ∧
        (0 < further → e.line = 1 + (start + size + further - 1)) := by
  have heval : (refusal? (readTemplate (.standard .haml) "a\n  b |\n  c |" "t" 1).1).map (·.line) =
      some 2 := by decide +kernel
  rcases hread : (readTemplate (.standard .haml) "a\n  b |\n  c |" "t" 1).1 with
    (e | _ | _ | _) | _ <;> rw [hread] at heval
  · exact ⟨e, rfl, refusal_line_iff hread⟩
  all_goals cases heval

/-- The statement that is refused as the next one after so many lines: how many lines precede it,
the refusal, and how many lines were entered in the end. -/
def refusalAfter? (g : Grammar) (n : Nat) (r : Reading) : Option (Nat × SyntaxError × Nat) := do
  let (_, r₁) ← steps g n r
  match (nextEntry g).run r₁ with
  | (.error (.refused e), r') => some (r₁.cursor.entered, e, r'.cursor.entered)
  | (.ok (some said), r₂) =>
    match (place said).run r₂ with
    | (.error (.refused e), r') => some (r₁.cursor.entered, e, r'.cursor.entered)
    | _ => none
  | _ => none

theorem length_of_steps {n : Nat} {es : List Entry} {r r' : Reading}
    (h : steps g n r = some (es, r')) : es.length = n := by
  induction n generalizing es r with
  | zero =>
    obtain ⟨rfl, -⟩ := Prod.mk.inj (Option.some.inj h)
    rfl
  | succ n ih =>
    obtain ⟨⟨said, r₁⟩, -, h⟩ := Option.bind_eq_some_iff.mp h
    obtain ⟨⟨es', s⟩, hsteps, h⟩ := Option.bind_eq_some_iff.mp h
    obtain ⟨rfl, rfl⟩ := Prod.mk.inj (Option.some.inj h)
    rw [List.length_cons, ih hsteps]

theorem exists_ends_of_refusalAfter? {n start stop : Nat} {r : Reading}
    (h : refusalAfter? g n r = some (start, e, stop)) :
    ∃ es r₁ r', Run g r es r₁ ∧ Ends g r₁ (.error (.refused e)) r' ∧ r₁.cursor.entered = start ∧
      r'.cursor.entered = stop := by
  obtain ⟨⟨es, r₁⟩, hsteps, h⟩ := Option.bind_eq_some_iff.mp h
  have hrun : Run g r es r₁ := run_iff_steps.mpr (by rwa [length_of_steps hsteps])
  dsimp only at h
  split at h
  · rename_i reads
    obtain ⟨rfl, hrest⟩ := Prod.mk.inj (Option.some.inj h)
    obtain ⟨rfl, rfl⟩ := Prod.mk.inj hrest
    exact ⟨es, r₁, _, hrun, .unread reads, rfl, rfl⟩
  · rename_i reads
    split at h
    · rename_i places
      obtain ⟨rfl, hrest⟩ := Prod.mk.inj (Option.some.inj h)
      obtain ⟨rfl, rfl⟩ := Prod.mk.inj hrest
      exact ⟨es, r₁, _, hrun, .unplaced reads places, rfl, rfl⟩
    · cases h
  · cases h

/-- The attributes of the tag go on for a line, and what stands above it takes no tags. -/
theorem refused_after_attributes :
    ∃ e, (readTemplate (.standard .haml) "a\n  %b\x7b:c => d,\n  :e => f\x7d" "t" 1).1 =
        .error (.refused e) ∧ e.cause.errorClass = .nesting ∧ e.line = 3 ∧
      RefusedAfter (.standard .haml) "a\n  %b\x7b:c => d,\n  :e => f\x7d" "t" 1 e 1 1 1 := by
  have heval : (refusalAfter? (.standard .haml) 1
      (.opening (.standard .haml) "a\n  %b\x7b:c => d,\n  :e => f\x7d" "t" 1)).map
        (fun x => (x.1, x.2.1.cause.errorClass, x.2.1.line, x.2.2)) =
          some (1, .nesting, 3, 3) := by decide +kernel
  obtain ⟨⟨start, e, stop⟩, hafter, hx⟩ := Option.map_eq_some_iff.mp heval
  simp only [Prod.mk.injEq] at hx
  obtain ⟨rfl, hclass, hline, rfl⟩ := hx
  obtain ⟨es, r, r', hrun, hends, hstart, hstop⟩ := exists_ends_of_refusalAfter? hafter
  refine ⟨e, hrun.readTemplate_eq_of_ends hends, hclass, hline,
    ⟨es, r, r', hrun, hends, hstart, hstop⟩, ?_⟩
  decide +kernel

end TemplateTree
