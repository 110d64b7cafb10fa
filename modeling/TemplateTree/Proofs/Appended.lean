import TemplateTree.Proofs.SourceLines

/-!
# Sources one after the other

A source that follows another one, which ends with a line feed, keeps its lines. They start later
than on their own, by the length of the source before them. So a cursor sees the same lines ahead
whether the first source ends or goes on, and whether the second source is entered at its start or
after the lines of the first.
-/

set_option autoImplicit false

namespace TemplateTree

namespace Text

theorem splitLines_eq_nil {cs : List Char} (h : splitLines cs = []) : cs = [] := by
  have hflat := flatten_splitLines cs
  rw [h] at hflat
  exact hflat.symm

/-- A line feed ends a line whatever follows it. -/
theorem splitLines_append {cs : List Char} (h : cs.getLast? = some '\n') (ds : List Char) :
    splitLines (cs ++ ds) = splitLines cs ++ splitLines ds := by
  fun_induction splitLines cs with
  | case1 => cases h
  | case2 rest ih =>
    have hrest : splitLines (rest ++ ds) = splitLines rest ++ splitLines ds := by
      cases rest with
      | nil => rfl
      | cons d rest => exact ih h
    simp only [List.cons_append, splitLines, hrest]
  -- no pair of breaks starts here, and none does when more text follows
  | case3 c rest hpair hbreak ih =>
    cases rest with
    | nil =>
      obtain rfl : c = '\n' := Option.some.inj h
      rfl
    | cons d rest =>
      have hnext := ih h
      rw [List.cons_append] at hnext ⊢
      rw [List.cons_append, splitLines, hnext, if_pos hbreak]
      · rfl
      · rintro others rfl heq
        obtain ⟨rfl, -⟩ := List.cons.inj heq
        exact hpair rest rfl rfl
  | case4 c rest hpair hbreak hnil ih =>
    obtain rfl := splitLines_eq_nil hnil
    obtain rfl : c = '\n' := Option.some.inj h
    exact absurd rfl hbreak
  | case5 c rest hpair hbreak line lines hlines ih =>
    cases rest with
    | nil => cases hlines
    | cons d rest =>
      have hnext := ih h
      rw [hlines] at hnext
      rw [List.cons_append] at hnext ⊢
      rw [List.cons_append, splitLines, hnext, if_neg hbreak]
      · rfl
      · rintro others rfl heq
        obtain ⟨rfl, -⟩ := List.cons.inj heq
        exact hpair rest rfl rfl

namespace Line

/-- A line that stands later in a source. -/
def later (count : Nat) (line : Line) : Line := { line with offset := count + line.offset }

theorem place_add (count offset : Nat) (raws : List (List Char)) :
    place (count + offset) raws = (place offset raws).map (later count) := by
  induction raws generalizing offset with
  | nil => rfl
  | cons raw raws ih =>
    rw [place, place, List.map_cons, Nat.add_assoc, ih]
    rfl

theorem place_append (offset : Nat) (raws others : List (List Char)) :
    place offset (raws ++ others) =
      place offset raws ++ place (offset + raws.flatten.length) others := by
  induction raws generalizing offset with
  | nil => simp [place]
  | cons raw raws ih =>
    rw [List.cons_append, place, place, ih, List.cons_append, List.flatten_cons,
      List.length_append, Nat.add_assoc]

theorem ofSource_append {cs : List Char} (h : cs.getLast? = some '\n') (ds : List Char) :
    ofSource (cs ++ ds) = ofSource cs ++ (ofSource ds).map (later cs.length) := by
  rw [ofSource, splitLines_append h, place_append, flatten_splitLines, Nat.zero_add,
    ← Nat.add_zero cs.length, place_add]
  rfl

end Line

end Text

namespace Position

/-- The integer of a value that is one, and so many more. -/
def addTo (count : Nat) : Value → Value
  | .int i => .int (i + count)
  | v => v

/-- A position that lies so many lines and characters later in a source. -/
def later (lines characters : Nat) (p : Position) : Position :=
  ⟨addTo lines p.line, p.column, addTo characters p.offset⟩

theorem later_of (lines characters : Nat) (line column offset : Int) :
    later lines characters (.of line column offset) =
      .of (line + lines) column (offset + characters) := rfl

end Position

namespace Correspondence

/-- A source whose positions are moved in a second one, which may have more lines. -/
def moved (f : Position → Position) (extra : List (List Char)) : Correspondence where
  first := f
  second := id
  lies _ := True
  reads _ _ := True
  extra := extra

section Moved
variable {f : Position → Position} {extra : List (List Char)} {c c' : Cursor}

/-- Cursors with the same lines ahead, which start where the positions move. -/
theorem ahead_moved (hfile : c'.filename = c.filename) (hupcoming : c'.upcoming = c.upcoming ++ extra)
    (hlines : ∀ k line, c.lines[c.entered + k]? = some line →
      ∃ line', c'.lines[c'.entered + k]? = some line' ∧ ∀ column : Int,
        f (.of (c.firstLine + (c.entered + k : Nat)) (column + 1) (line.offset + column)) =
          .of (c'.firstLine + (c'.entered + k : Nat)) (column + 1) (line'.offset + column)) :
    (moved f extra).Ahead c c' := by
  have hany : ∀ (k : Nat) (line text : List Char), c.upcoming[k]? = some line →
      (moved f extra).OnLine (c.placeOn (c.entered + k)) (c'.placeOn (c'.entered + k)) text := by
    intro k line text hk
    rw [Cursor.getElem?_upcoming] at hk
    obtain ⟨l, hl, -⟩ := Option.map_eq_some_iff.mp hk
    obtain ⟨l', hl', hsame⟩ := hlines k l hl
    rw [← Int.natCast_add, ← Int.natCast_add]
    refine ⟨fun column => ⟨?_, trivial⟩, fun _ _ => trivial⟩
    rw [Cursor.placeOn_natCast hl, Cursor.placeOn_natCast hl']
    exact hsame column
  exact ⟨hfile, hupcoming, fun k line hk => hany k line line hk, fun k line text hk _ =>
    hany k line text hk⟩

/-- A source that goes on with other lines. -/
theorem ahead_start {source : List Char} (h : source.getLast? = some '\n') (others : List Char)
    (filename : String) (firstLine : Int) :
    (moved id ((Text.Line.ofSource others).map (·.text))).Ahead (.start source filename firstLine)
      (.start (source ++ others) filename firstLine) := by
  have hlines := Text.Line.ofSource_append h others
  refine ahead_moved rfl ?_ ?_
  · simp only [Cursor.upcoming, Cursor.ahead, Cursor.start, List.drop_zero, hlines, List.map_append,
      List.map_map]
    rfl
  · intro k line hk
    refine ⟨line, ?_, fun _ => rfl⟩
    simp only [Cursor.start] at hk ⊢
    rw [hlines, List.getElem?_append_left (List.getElem?_eq_some_iff.mp hk).1, hk]

/-- A source that follows another one. -/
theorem ahead_later {source : List Char} (h : source.getLast? = some '\n') {others : List Char}
    {filename : String} {firstLine : Int} (hfile : c.filename = filename)
    (hfirst : c.firstLine = firstLine) (hlines : c.lines = Text.Line.ofSource (source ++ others))
    (hentered : c.entered = (Text.splitLines source).length) :
    (moved (.later (Text.splitLines source).length source.length) []).Ahead
      (.start others filename firstLine) c := by
  rw [Text.Line.ofSource_append h] at hlines
  rw [← Text.Line.length_ofSource] at hentered ⊢
  refine ahead_moved hfile ?_ ?_
  · simp only [Cursor.upcoming, Cursor.ahead, hlines, hentered, List.drop_left, Cursor.start,
      List.drop_zero, List.map_map, List.append_nil]
    rfl
  · intro k line hk
    simp only [Cursor.start, Nat.zero_add] at hk ⊢
    refine ⟨line.later source.length, ?_, fun column => ?_⟩
    · rw [hlines, hentered, List.getElem?_append_right (Nat.le_add_right _ _), Nat.add_sub_cancel_left,
        List.getElem?_map, hk]
      rfl
    · rw [Position.later_of, hfirst, hentered]
      simp only [Text.Line.later, Position.of, Position.mk.injEq, Value.int.injEq]
      exact ⟨by omega, trivial, by omega⟩

end Moved

end Correspondence

end TemplateTree
