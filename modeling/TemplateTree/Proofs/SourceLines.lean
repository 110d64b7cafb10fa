import TemplateTree.Proofs.Paired.Lines
import TemplateTree.Proofs.Templates

/-!
# Lines in their source

A line starts where the lines before it end, breaks included. A cursor places its columns on the
lines of the source that it reads, so what a statement says is found there again: every step of
reading a template agrees with itself about it.
-/

set_option autoImplicit false

namespace TemplateTree

namespace Text

/-- Where a line of a source starts. -/
def startOf (source : List Char) (k : Nat) : Nat := ((splitLines source).take k).flatten.length

namespace Line

theorem getElem?_place (offset : Nat) (raws : List (List Char)) (k : Nat) :
    (place offset raws)[k]? = raws[k]?.map fun raw =>
      ⟨offset + (raws.take k).flatten.length, dropRightWhile isReturn raw⟩ := by
  induction raws generalizing offset k with
  | nil => rfl
  | cons raw raws ih =>
    cases k with
    | zero => rfl
    | succ k =>
      rw [place, List.getElem?_cons_succ, List.getElem?_cons_succ, ih, List.take_succ_cons,
        List.flatten_cons, List.length_append, Nat.add_assoc]

theorem getElem?_ofSource (source : List Char) (k : Nat) :
    (ofSource source)[k]? = (splitLines source)[k]?.map fun raw =>
      ⟨startOf source k, dropRightWhile isReturn raw⟩ := by
  rw [ofSource, getElem?_place]
  simp only [Nat.zero_add, startOf]

/-- The source from where a line starts on: its piece, and the pieces after it. -/
theorem drop_startOf {source raw : List Char} {k : Nat} (h : (splitLines source)[k]? = some raw) :
    source.drop (startOf source k) = raw ++ ((splitLines source).drop (k + 1)).flatten := by
  obtain ⟨hlt, hget⟩ := List.getElem?_eq_some_iff.mp h
  have hsplit : source = ((splitLines source).take k).flatten ++
      (raw ++ ((splitLines source).drop (k + 1)).flatten) := by
    conv_lhs => rw [← flatten_splitLines source, ← List.take_append_drop k (splitLines source)]
    rw [List.drop_eq_getElem_cons hlt, hget, List.flatten_append, List.flatten_cons]
  conv_lhs => arg 2; rw [hsplit]
  exact List.drop_left

theorem startOf_succ {source raw : List Char} {k : Nat} (h : (splitLines source)[k]? = some raw) :
    startOf source (k + 1) = startOf source k + raw.length := by
  obtain ⟨hlt, hget⟩ := List.getElem?_eq_some_iff.mp h
  rw [startOf, startOf, List.take_succ_eq_append_getElem hlt, hget, List.flatten_append,
    List.length_append, List.flatten_singleton]

/-- The source from a column of a line on: what the line says, its break, and the lines after it. -/
theorem drop_source {source : List Char} {k : Nat} {line : Line}
    (h : (ofSource source)[k]? = some line) {n : Nat} (hn : n ≤ line.text.length) :
    line.offset = startOf source k ∧ ∃ stop, (∀ c ∈ stop, isReturn c) ∧
      source.drop (startOf source k + n) =
        line.text.drop n ++ stop ++ ((splitLines source).drop (k + 1)).flatten := by
  rw [getElem?_ofSource] at h
  obtain ⟨raw, hraw, rfl⟩ := Option.map_eq_some_iff.mp h
  obtain ⟨stop, hstop, hreturn⟩ := exists_dropRightWhile isReturn raw
  refine ⟨rfl, stop, hreturn, ?_⟩
  rw [← List.drop_drop, drop_startOf hraw]
  conv_lhs => rw [hstop]
  rw [List.append_assoc, List.append_assoc, List.drop_append_of_le_length hn]

end Line

end Text

namespace Cursor
variable {c : Cursor}

theorem placeOn_natCast {k : Nat} {line : Text.Line} (h : c.lines[k]? = some line) (column : Int) :
    c.placeOn k column = .of (c.firstLine + k) (column + 1) (line.offset + column) := by
  have hoffset : ({ c with anchor := (k : Int) } : Cursor).lineOffset = line.offset := by
    simp [lineOffset, h]
  have hnumber : ({ c with anchor := (k : Int) } : Cursor).lineNumber = c.firstLine + k := by
    simp [lineNumber]
  rw [placeOn, positionAt, hoffset, hnumber]

theorem getElem?_upcoming (k : Nat) :
    c.upcoming[k]? = (c.lines[c.entered + k]?).map (·.text) := by
  rw [upcoming, ahead, List.getElem?_map, List.getElem?_drop]

end Cursor

namespace Position

/-- A column of a line of a source, whose lines are counted from `firstLine`. -/
def On (source : List Char) (firstLine : Int) (k : Nat) (p : Position) : Prop :=
  k < (Text.splitLines source).length ∧
    ∃ column : Int, p = .of (firstLine + k) (column + 1) (Text.startOf source k + column)

/-- The source says `text` at a position and then its line ends. -/
def Reads (source : List Char) (firstLine : Int) (text : List Char) (p : Position) : Prop :=
  ∃ (k column : Nat) (stop : List Char), k < (Text.splitLines source).length ∧
    p = .of (firstLine + k) (column + 1) (Text.startOf source k + column) ∧
    (∀ c ∈ stop, Text.Line.isReturn c) ∧
    source.drop (Text.startOf source k + column) =
      text ++ stop ++ ((Text.splitLines source).drop (k + 1)).flatten

end Position

/-- No line of a source is joined to another one. -/
def Text.Unjoined (source : List Char) : Prop :=
  ∀ line ∈ Line.ofSource source, isMultiline line.text = false

namespace Correspondence
open Production

/-- A template with itself. Positions lie on the lines from `k` on. -/
def within (source : List Char) (firstLine : Int) (k : Nat) : Correspondence where
  first := id
  second := id
  lies p := ∃ j, k ≤ j ∧ p.On source firstLine j
  reads text p := Text.Unjoined source → p.Reads source firstLine text
  extra := []

section Within
variable {source : List Char} {firstLine : Int} {c : Cursor}

theorem onLine_within {k j : Nat} {line : Text.Line} (hlines : c.lines = Text.Line.ofSource source)
    (hfirst : c.firstLine = firstLine) (hk : k ≤ j) (hline : c.lines[j]? = some line)
    {text : List Char} (htext : Text.Unjoined source → text = line.text) :
    (within source firstLine k).OnLine (c.placeOn j) (c.placeOn j) text := by
  rw [hlines] at hline
  have hlt : j < (Text.splitLines source).length := by
    rw [← Text.Line.length_ofSource]
    exact (List.getElem?_eq_some_iff.mp hline).1
  have hplace : ∀ column : Int, c.placeOn j column =
      .of (firstLine + j) (column + 1) (Text.startOf source j + column) := by
    intro column
    have hoffset := (Text.Line.drop_source hline (Nat.zero_le _)).1
    rw [Cursor.placeOn_natCast (hlines ▸ hline), hfirst, hoffset]
  constructor
  · intro column
    exact ⟨rfl, j, hk, hlt, column, hplace column⟩
  · intro n hn hun
    obtain rfl := htext hun
    obtain ⟨_, stop, hreturn, hdrop⟩ := Text.Line.drop_source hline hn
    exact ⟨j, n, stop, hlt, hplace n, hreturn, hdrop⟩

/-- The lines ahead of a cursor lie where they say. -/
theorem ahead_within (hlines : c.lines = Text.Line.ofSource source) (hfirst : c.firstLine = firstLine) :
    (within source firstLine c.entered).Ahead c c where
  filename := rfl
  upcoming := (List.append_nil _).symm
  lines := by
    intro k text hk
    rw [Cursor.getElem?_upcoming] at hk
    obtain ⟨line, hline, rfl⟩ := Option.map_eq_some_iff.mp hk
    rw [← Int.natCast_add]
    exact onLine_within hlines hfirst (Nat.le_add_right _ _) hline fun _ => rfl
  joined := by
    intro k text other hk hm
    rw [Cursor.getElem?_upcoming] at hk
    obtain ⟨line, hline, rfl⟩ := Option.map_eq_some_iff.mp hk
    rw [← Int.natCast_add]
    refine onLine_within hlines hfirst (Nat.le_add_right _ _) hline fun hun => ?_
    have hmem : line ∈ Text.Line.ofSource source := hlines ▸ List.mem_of_getElem? hline
    rw [hun line hmem] at hm
    cases hm

end Within

end Correspondence

open Production in
/-- A statement of a template lies on its lines, from the line on that it starts with. -/
theorem Settled.located {g : Grammar} {source filename : String} {firstLine : Int} {es : List Entry}
    {r r' : Reading} {node : Node} {level previous : Nat}
    (h : Settled g source filename firstLine es r)
    (reads : (nextEntry g).run r = (.ok (some (.statement node level previous)), r')) :
    (Correspondence.within source.toList firstLine r.cursor.entered).Pair node node ∧
      (node.kind = .tag → Correspondence.TagOf g r.cursor.nextLine.2.joined node) := by
  cases finds_of_nextEntry reads with
  | @statement line _ _ _ entered stated =>
    let P := Correspondence.within source.toList firstLine r.cursor.entered
    let t := (r.indent.check (Pattern.run Text.isIndent line) r.outline.last.isNone).2
    -- the template is compared with itself, so nothing can be lost
    have hsame : (P.knowing t t r.outline r.outline).SameBlocks :=
      ⟨fun _ => rfl, fun _ hline => by cases hline⟩
    have hlost : (P.knowing t t r.outline r.outline).Lossy → False :=
      fun hlossy => hlossy.elim (fun hextra => hextra rfl) fun hd => hd hsame
    rcases Correspondence.outcomes_nextEntry (g := g) (P := P)
      (Correspondence.ahead_within h.lines h.firstLine) (fun _ hline => by cases hline) entered.peek
      (fun _ => ⟨_, _, rfl, rfl, Or.inl rfl⟩) hlost with ⟨_, _, _, _, _, _, hdiff⟩ | houtcomes
    · exact absurd hsame hdiff
    · rw [reads] at houtcomes
      obtain ⟨_, _, hsome, hsome', _, _, _, hsays⟩ := houtcomes
      obtain rfl := Option.some.inj hsome
      cases hsome'
      cases hsays with
      | statement _ _ pair tag => exact ⟨pair, tag⟩

open Node Production in
/-- A property of the statements of a template is one of its tree, when it does not depend on what is
nested in them. -/
theorem Run.everywhere {g : Grammar} {source filename : String} {firstLine : Int} {es : List Entry}
    {r : Reading} {P : Node → Prop} (hrun : Run g (.opening g source filename firstLine) es r)
    (hsame : ∀ m cs, Accepts m → P m → P (m.withChildren cs))
    (hroot : P (.root [] (some (.of firstLine 1 0))))
    (hnode : ∀ es r r' node level previous, Settled g source filename firstLine es r →
      (nextEntry g).run r = (.ok (some (.statement node level previous)), r') →
      node.Everywhere P) : r.outline.root.Everywhere P := by
  induction hrun with
  | start => exact .leaf hroot rfl
  | @step es said r₁ r₂ r₃ before reads places ih =>
    have hset := before.settled
    have hadv := advances_of_run reads places
    cases said with
    | blank =>
      cases hadv with
      | blank entered =>
        rw [entered.outline]
        exact ih
    | statement node level previous =>
      have hplaced := hset.placed hadv
      rw [hplaced.outline]
      exact Everywhere.addChildAt hsame hplaced.path hplaced.accepts ih
        (hnode _ _ _ _ _ _ hset reads)

end TemplateTree
