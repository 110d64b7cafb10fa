import TemplateTree.Proofs.SourceLines

/-!
# Positions of tags

A tag is placed at the column where it starts, but on the line that the reader has come to after its
attributes and flags. So its position is where its first characters are exactly when attributes and
flags end on the line that the tag starts.
-/

set_option autoImplicit false

namespace TemplateTree

open Node Production

theorem Dialect.Opens.append {d : Dialect} {name : Option (List Char)} {text : List Char}
    (h : d.Opens name text) (after : List Char) : text ≠ [] ∧ d.Opens name (text ++ after) := by
  cases text with
  | nil => cases d <;> cases name <;> simp [Dialect.Opens] at h
  | cons c text =>
    refine ⟨nofun, ?_⟩
    cases d <;> cases name
    · exact h
    · exact ⟨h.1, h.2.trans (List.prefix_append _ _)⟩
    · exact h
    · exact ⟨h.1, h.2.trans (List.prefix_append _ _)⟩

/-- The name of a tag whose start has the given name or none. -/
def Grammar.tagName (g : Grammar) : Option (List Char) → Value
  | some name => .str (String.ofList name)
  | none => g.options.implicitTagName

/-- A tag of line `i`, which starts with it after the indentation. From behind its marker on, its
attributes and flags are read up to line `j`. -/
structure TagOnLine (g : Grammar) (source : List Char) (firstLine : Int) (i j : Nat)
    (name : Option (List Char)) (n : Node) : Prop where
  opens : ∃ line ∈ (Text.Line.ofSource source)[i]?, ∃ m : Match,
    g.dialect.tag (line.text.dropWhile Text.isIndent) = some m ∧ m.group 0 = name ∧
      ∃ (s t u : Reading) (attributes : List Node) (flags : TagFlags),
        s.cursor.line = line.text ∧ s.cursor.lineNumber = firstLine + i ∧
        s.cursor.rest = (line.text.dropWhile Text.isIndent).drop m.length ∧
        tagAttributes.run s = (.ok attributes, t) ∧ (tagFlags g.dialect).run t = (.ok flags, u) ∧
        u.cursor.lineNumber = firstLine + j ∧
        ∃ content children p, n = .tag (g.tagName name) attributes flags content children p
  le : i ≤ j

/-- The position of the first characters of a tag of line `i`. -/
def Position.Designates (d : Dialect) (source : List Char) (firstLine : Int) (i : Nat)
    (name : Option (List Char)) (p : Position) : Prop :=
  p.line = .int (firstLine + i) ∧ ∃ offset : Nat, p.offset = .int offset ∧
    offset < source.length ∧ d.Opens name (source.drop offset)

/-- A tag of a source. It is placed on the line where its attributes and flags end, and so at its
first characters only if that is the line it starts. -/
def TagPlaced (g : Grammar) (source : List Char) (firstLine : Int) (n : Node) : Prop :=
  ∃ i j name p, TagOnLine g source firstLine i j name n ∧ n.position = some p ∧
    p.On source firstLine j ∧ (p.Designates g.dialect source firstLine i name ↔ j = i)

theorem TagPlaced.withChildren {g : Grammar} {source : List Char} {firstLine : Int} {n : Node}
    (h : TagPlaced g source firstLine n) (cs : List Node) :
    TagPlaced g source firstLine (n.withChildren cs) := by
  obtain ⟨i, j, name, p, ⟨⟨line, hline, m, hm, hname, hread⟩, hle⟩, hp, hplaced⟩ := h
  obtain ⟨s, t, u, attributes, flags, hs, hnumber, hrest, hrun, hflags, hu, content, _, q, rfl⟩ := hread
  refine ⟨i, j, name, p, ⟨⟨line, hline, m, hm, hname, s, t, u, attributes, flags, ?_⟩, hle⟩, hp,
    hplaced⟩
  exact ⟨hs, hnumber, hrest, hrun, hflags, hu, content, cs, q, rfl⟩

theorem Cursor.skipIndent_spec {c : Cursor} (h : c.Inside) (hcolumn : c.column = 0) :
    c.skipIndent.Inside ∧ c.skipIndent.column = Pattern.runLength Text.isIndent c.line ∧
      c.skipIndent.rest = c.line.dropWhile Text.isIndent := by
  have hrest : c.rest = c.line := by
    rw [rest, hcolumn]
    rfl
  have hle : Pattern.runLength Text.isIndent c.line ≤ c.line.length :=
    (List.takeWhile_prefix _).length_le
  have hskip : c.skipIndent = c.skip (Pattern.runLength Text.isIndent c.line) := by
    unfold skipIndent
    rw [inLine_eq h, hrest]
  rw [hskip]
  refine ⟨(onward_skip h _).inside, ?_, ?_⟩
  · rw [skip]
    dsimp only
    omega
  · rw [rest_skip h, hrest, Pattern.drop_runLength]

/-- The first characters of a line that is entered. -/
structure Cursor.AtStart (c : Cursor) (number : Int) (text : List Char) : Prop where
  inside : c.Inside
  line : c.line = text
  lineNumber : c.lineNumber = number
  column : c.column = Pattern.runLength Text.isIndent text
  rest : c.rest = text.dropWhile Text.isIndent

theorem Cursor.atStart_skipIndent {c : Cursor} {line : Text.Line}
    (h : c.lines[c.entered]? = some line) :
    c.nextLine.2.skipIndent.AtStart (c.firstLine + c.entered) line.text := by
  have hpeek : c.peekLine = some line.text := congrArg (Option.map Text.Line.text) h
  have hinside := (onward_nextLine hpeek).1.inside
  rw [nextLine_eq hpeek] at hinside ⊢
  obtain ⟨hskipped, hcolumn, hrest⟩ := skipIndent_spec hinside rfl
  refine ⟨hskipped, rfl, ?_, hcolumn, hrest⟩
  simp [skipIndent, inLine, skip, Cursor.lineNumber]

theorem Text.Line.opens_source {source : List Char} {i : Nat} {line : Line}
    (h : (ofSource source)[i]? = some line) {d : Dialect} {name : Option (List Char)}
    (hopens : d.Opens name (line.text.dropWhile isIndent)) :
    startOf source i + Pattern.runLength isIndent line.text < source.length ∧
      d.Opens name (source.drop (startOf source i + Pattern.runLength isIndent line.text)) := by
  have hle : Pattern.runLength isIndent line.text ≤ line.text.length :=
    (List.takeWhile_prefix _).length_le
  obtain ⟨-, stop, -, hdrop⟩ := drop_source h hle
  rw [Pattern.drop_runLength, List.append_assoc] at hdrop
  obtain ⟨hne, hsource⟩ := hopens.append (stop ++ ((splitLines source).drop (i + 1)).flatten)
  rw [← hdrop] at hsource
  refine ⟨?_, hsource⟩
  by_contra hlong
  rw [List.drop_eq_nil_of_le (Nat.not_lt.mp hlong)] at hdrop
  exact hne (List.append_eq_nil_iff.mp hdrop.symm).1

theorem Settled.tagPlaced {g : Grammar} {source filename : String} {firstLine : Int}
    {es : List Entry} {r r' : Reading} {node : Node} {level previous : Nat}
    (h : Settled g source filename firstLine es r) (hun : Text.Unjoined source.toList)
    (reads : (nextEntry g).run r = (.ok (some (.statement node level previous)), r'))
    (hkind : node.kind = .tag) : TagPlaced g source.toList firstLine node := by
  obtain ⟨hpair, htag⟩ := h.located reads
  cases finds_of_nextEntry reads with
  | @statement line _ _ _ entered stated =>
    obtain ⟨l, hl, rfl⟩ := Option.map_eq_some_iff.mp entered.peek
    have hstart := Cursor.atStart_skipIndent hl
    rw [h.lines] at hl
    rw [h.firstLine] at hstart
    have hplain : r.cursor.nextLine.2.joined = r.cursor.nextLine.2 := by
      apply Cursor.joined_of_plain
      rw [Cursor.nextLine_eq entered.peek]
      exact hun l (List.mem_of_getElem? hl)
    obtain ⟨s, hs, m, attributes, flags, content, t, u, hm, hrun, hflags, rfl⟩ := htag hkind
    rw [hplain] at hs
    rw [← hs] at hstart
    have hbehind : (s.skip m.length).cursor.rest = s.cursor.rest.drop m.length :=
      Cursor.rest_skip hstart.inside _
    rw [hstart.rest] at hbehind hm
    have hopens := Dialect.opens_of_tag hm
    obtain ⟨p, hp, j, hle, hon⟩ := hpair.located.here.lies
    obtain rfl := Option.some.inj hp
    refine ⟨r.cursor.entered, j, m.group 0, _, ⟨⟨l, hl, m, hm, rfl, s.skip m.length, t, u,
      attributes, flags, ?_⟩, hle⟩, rfl, hon, ?_⟩
    all_goals
      -- the position has the column of the marker and the line where the flags end
      obtain ⟨-, column, hplace⟩ := hon
      simp only [Cursor.positionAt, Position.of, Position.mk.injEq, Value.int.injEq] at hplace
      obtain ⟨hline, hsame, hoffset⟩ := hplace
    · exact ⟨hstart.line, hstart.lineNumber, hbehind, hrun, hflags, hline, content, [], _, rfl⟩
    · constructor
      · rintro ⟨hnumber, -⟩
        have hi := Value.int.inj hnumber
        omega
      · rintro rfl
        obtain ⟨hlt, hsource⟩ := Text.Line.opens_source hl hopens
        refine ⟨congrArg Value.int hline, _, ?_, hlt, hsource⟩
        have hcolumn := hstart.column
        simp only [Cursor.positionAt, Position.of, Value.int.injEq]
        omega

/-- A tag is the statement of its line, never part of one. -/
theorem Node.Everywhere.tagless {lies : Position → Prop} {reads : List Char → Position → Prop}
    {n : Node} (h : n.Everywhere (Located lies reads)) (hkind : n.kind ≠ .tag) :
    n.Everywhere fun m => m.kind ≠ .tag := by
  induction h with
  | intro here _ ih => exact .intro hkind fun m hm => ih m hm (here.tagless m hm)

/-- In a template that can be read and has no lines to join, every tag starts a line and is placed at
the column where it does. Its position has the line where its attributes and flags end: it is the
position of the first characters of the tag if and only if they end on the line that it starts. -/
theorem tagPlaced_of_readTemplate {g : Grammar} {source filename : String} {firstLine : Int}
    {root : Node} (h : (readTemplate g source filename firstLine).1 = .ok root)
    (hun : Text.Unjoined source.toList) :
    root.Everywhere fun n => n.kind = .tag → TagPlaced g source.toList firstLine n := by
  obtain ⟨es, r, _, hrun, _, rfl⟩ := exists_run_of_readTemplate h
  apply hrun.everywhere
  · intro m cs _ hm hkind
    rw [kind_withChildren] at hkind
    exact (hm hkind).withChildren cs
  · nofun
  · intro es r r' node level previous hset reads
    have hlocated := (hset.located reads).1.located
    refine .intro (hset.tagPlaced hun reads) fun m hm => ?_
    refine (hlocated.of_mem hm).tagless (hlocated.here.tagless m hm) |>.imp fun n hn hkind => ?_
    exact absurd hkind hn

/-- A tag on one line in a tag on two. -/
theorem tagPlaced_of_readTemplate_nested : ∃ root,
    (readTemplate (.standard .haml) "%a(b=c\n d=e) \n  .f= g" "t" 1).1 = .ok root ∧
      root.Everywhere fun n => n.kind = .tag →
        TagPlaced (.standard .haml) "%a(b=c\n d=e) \n  .f= g".toList 1 n := by
  have heval : (readTemplate (.standard .haml)
      "%a(b=c\n d=e) \n  .f= g" "t" 1).1.toOption.isSome := by decide +kernel
  rcases hread : (readTemplate (.standard .haml) "%a(b=c\n d=e) \n  .f= g" "t" 1).1 with _ | root
  · rw [hread] at heval
    cases heval
  · exact ⟨root, rfl, tagPlaced_of_readTemplate hread (by unfold Text.Unjoined; decide +kernel)⟩

/-- The attributes of the only tag end on the second line, so its position is a blank of that line,
where no tag starts. -/
theorem tag_placed_after_attributes : ∃ root,
    (readTemplate (.standard .haml) "%a\x7b:b => c,\n  :d => e\x7d" "t" 1).1 = .ok root ∧
      ∃ n ∈ root.children, n.kind = .tag ∧ ∃ p, n.position = some p ∧ p.line.toInt? = some 2 ∧
        p.offset.toInt? = some 12 ∧
        ∀ i name, ¬ p.Designates .haml "%a\x7b:b => c,\n  :d => e\x7d".toList 1 i name := by
  -- the tree is not evaluated as a whole, only what the statement asks about its children
  have heval : ((readTemplate (.standard .haml)
      "%a\x7b:b => c,\n  :d => e\x7d" "t" 1).1.toOption.map fun root => root.children.map fun n =>
        (n.kind, n.position.map fun p => (p.line.toInt?, p.offset.toInt?))) =
          some [(.tag, some (some 2, some 12))] := by decide +kernel
  rcases hread : (readTemplate (.standard .haml) "%a\x7b:b => c,\n  :d => e\x7d" "t" 1).1 with
    _ | root
  · rw [hread] at heval
    cases heval
  rw [hread] at heval
  obtain ⟨n, hroot, hn⟩ := List.map_eq_singleton_iff.mp (Option.some.inj heval)
  obtain ⟨hkind, hposition⟩ := Prod.mk.inj hn
  obtain ⟨p, hp, hvalues⟩ := Option.map_eq_some_iff.mp hposition
  obtain ⟨hline, hoffset⟩ := Prod.mk.inj hvalues
  refine ⟨root, rfl, n, by simp [hroot], hkind, p, hp, hline, hoffset, ?_⟩
  rintro i name ⟨-, offset, hint, -, hopens⟩
  rw [hint] at hoffset
  obtain rfl : offset = 12 := by
    have hsame := Option.some.inj hoffset
    omega
  cases name with
  | none =>
    rcases hopens with hdot | hhash
    · exact absurd hdot (by decide)
    · exact absurd hhash (by decide)
  | some name =>
    obtain ⟨-, hprefix⟩ := hopens
    exact absurd (List.cons_prefix_cons.mp hprefix).1 (by decide)

end TemplateTree
