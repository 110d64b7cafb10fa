import TemplateTree.Proofs.Templates

/-!
# Blocks of filters and silent comments

The block of a filter or a silent comment is read to its end, so the next line asks for no level
below it. There is one way around this: a line that is outside the block and holds nothing but the
bar of joined lines reads as blank, and the line after it may be indented deeper again. `Reenters`
is this run of lines, and a template keeps the lines of its blocks apart from its statements exactly
when its run has none of it.
-/

set_option autoImplicit false

namespace TemplateTree

open Node Outline Production

/-- A block that is left by a line that reads as blank, and is entered again by a statement. -/
inductive Reenters (g : Grammar) (r : Reading) : Prop where
  | intro {es blanks : List Entry} {owner node : Node} {level previous : Nat} {line : List Char}
      {r₁ r₂ r₃ r₄ : Reading} (run : Run g r (es ++ [.statement owner level previous]) r₁)
      (owns : owner.ownsRawLines) (leaves : r₁.cursor.peekLine = some line)
      (bar : Text.trim line = ['|']) (passes : Run g r₁ (.blank :: blanks) r₂)
      (blank : ∀ e ∈ blanks, e = .blank)
      (reads : (nextEntry g).run r₂ = (.ok (some (.statement node (level + 1) level)), r₃))
      (places : (place (.statement node (level + 1) level)).run r₃ = (.ok (), r₄)) : Reenters g r

namespace Run
variable {g : Grammar} {r r' : Reading} {es blanks : List Entry}

/-- Lines that say nothing leave outline and levels as they were. -/
theorem eq_of_blanks (h : Run g r blanks r') (hblank : ∀ e ∈ blanks, e = .blank) :
    r'.outline = r.outline ∧ r'.indent = r.indent := by
  induction h with
  | start => exact ⟨rfl, rfl⟩
  | step _ reads places ih =>
    obtain ⟨houtline, hindent⟩ := ih fun e he => hblank e (List.mem_append_left _ he)
    obtain rfl := hblank _ (List.mem_append_right _ List.mem_cons_self)
    cases advances_of_run reads places with
    | blank entered indent =>
      exact ⟨entered.outline.trans houtline, indent.trans hindent⟩

/-- A run up to its last statement, and the lines after it that say nothing. -/
theorem exists_last (h : Run g r es r') : (∀ e ∈ es, e = .blank) ∨
    ∃ before owner level previous blanks r₁,
      Run g r (before ++ [.statement owner level previous]) r₁ ∧ Run g r₁ blanks r' ∧
        (∀ e ∈ blanks, e = .blank) ∧
          es = before ++ [.statement owner level previous] ++ blanks := by
  induction h with
  | start => exact Or.inl (by simp)
  | @step es said r₁ r₂ r₃ before reads places ih =>
    cases said with
    | statement node level previous =>
      exact Or.inr ⟨_, _, _, _, [], _, .step before reads places, .start, by simp, by simp⟩
    | blank =>
      rcases ih with hall | ⟨before', owner, level, previous, blanks, r₁', hrun, hrest, hblank, rfl⟩
      · refine Or.inl fun e he => ?_
        rcases List.mem_append.mp he with he | he
        · exact hall e he
        · exact List.mem_singleton.mp he
      · refine Or.inr ⟨_, _, _, _, blanks ++ [.blank], _, hrun, .step hrest reads places, ?_, ?_⟩
        · intro e he
          rcases List.mem_append.mp he with he | he
          · exact hblank e he
          · exact List.mem_singleton.mp he
        · rw [List.append_assoc]

end Run

section Last
variable {g : Grammar} {source filename : String} {firstLine : Int} {es : List Entry}
  {r r' : Reading} {node : Node} {level previous : Nat}

/-- The statement after the end of a block is not nested in the owner of the block. -/
theorem level_le_of_blockEnded {r₁ : Reading} (hended : r.BlockEnded)
    (reads : (nextEntry g).run r = (.ok (some (.statement node level previous)), r₁)) :
    level ≤ r.indent.level := by
  cases finds_of_nextEntry reads with
  | @statement line _ _ _ entered stated =>
    exact Indent.level_le_of_not_inBlock (hended line entered.peek) stated.check

/-- A line that reads as blank after the end of a block is none of blanks, which would belong to the
block. -/
theorem bar_of_blockEnded {r₁ : Reading} (hended : r.BlockEnded)
    (reads : (nextEntry g).run r = (.ok (some .blank), r₁)) :
    ∃ line, r.cursor.peekLine = some line ∧ Text.trim line = ['|'] := by
  cases finds_of_nextEntry reads with
  | @blank line entered _ vanished =>
    refine ⟨line, entered.peek, ?_⟩
    have hout := hended line entered.peek
    rcases vanished with hblank | hbar
    · simp [inBlock, hblank] at hout
    · exact hbar

/-- The first statement of a template is nested in none. -/
theorem level_eq_zero_of_blanks (h : Settled g source filename firstLine es r) {r₁ : Reading}
    (hblank : ∀ e ∈ es, e = .blank)
    (reads : (nextEntry g).run r = (.ok (some (.statement node level previous)), r₁)) :
    level = 0 := by
  have hnone : statementsOf es = [] :=
    List.filterMap_eq_nil_iff.mpr fun e he => by rw [hblank e he]; rfl
  cases finds_of_nextEntry reads with
  | statement entered stated =>
    have hreach := h.le_reach stated
    rw [hnone] at hreach
    exact Nat.le_zero.mp hreach

/-- A statement below an owner of raw lines enters the block again that the owner has read. -/
theorem Run.reenters (hrun : Run g (.opening g source filename firstLine) es r) {r₁ : Reading}
    (reads : (nextEntry g).run r = (.ok (some (.statement node level previous)), r₁))
    (places : (place (.statement node level previous)).run r₁ = (.ok (), r'))
    (hlevel : level = r.indent.level + 1) (howns : (r.outline.root.lastAt level).ownsRawLines) :
    Reenters g (.opening g source filename firstLine) := by
  rcases hrun.exists_last with hall |
    ⟨before, owner, top, previous', blanks, r₂, hbefore, hrest, hblank, _⟩
  · have hzero := level_eq_zero_of_blanks hrun.settled hall reads
    omega
  · obtain ⟨r₃, r₄, hstart, hreads, hplaces⟩ := hbefore.exists_of_concat
    have howner := hstart.settled.placed (advances_of_run hreads hplaces)
    obtain ⟨houtline, hindent⟩ := hrest.eq_of_blanks hblank
    have hprevious : previous = top := by
      cases finds_of_nextEntry reads with
      | statement entered stated => rw [stated.previous, hindent, howner.level]
    rw [hindent, howner.level] at hlevel
    subst hlevel hprevious
    rw [houtline, howner.lastAt_eq] at howns
    have hended := howner.node.ended howns
    cases blanks with
    | nil =>
      -- the block has ended before the very line that would be nested in it
      obtain rfl := hrest.eq_of_nil
      have hle := level_le_of_blockEnded hended reads
      rw [howner.level] at hle
      exact absurd hle (Nat.not_succ_le_self previous)
    | cons b blanks =>
      obtain rfl := hblank b List.mem_cons_self
      obtain ⟨_, _, hreads₁, _, _⟩ := hrest.exists_of_cons
      obtain ⟨line, hpeek, hbar⟩ := bar_of_blockEnded hended hreads₁
      exact .intro hbefore howns hpeek hbar hrest
        (fun e he => hblank e (List.mem_cons_of_mem _ he)) reads places

end Last

/-- A node that takes statements of the source, and no raw lines. -/
def TakesStatements (n : Node) : Prop := n.Accepts ∧ n.ownsRawLines = false

/-- A reading whose filters and silent comments hold raw lines only. -/
structure Parted (g : Grammar) (r : Reading) : Prop where
  grown : r.outline.Grown TakesStatements r.indent.level
  sound : r.outline.root.Everywhere (Sound g.options.interpolateFilters.isTrue)

section Parted
variable {g : Grammar} {source filename : String} {firstLine : Int} {es : List Entry}
  {r r' : Reading} {n : Node}

theorem Node.ownsRawLines_of_root (h : n.kind = .root) : n.ownsRawLines = false := by
  cases n <;> simp only [kind, reduceCtorEq] at h
  rfl

/-- None of the open nodes owns raw lines. -/
theorem Parted.ownsRawLines_lastAt (h : Parted g r) (hroot : r.outline.root.kind = .root)
    {level : Nat} (hle : level ≤ r.indent.level) :
    (r.outline.root.lastAt level).ownsRawLines = false := by
  rcases h.grown.atLevel.last with hlast | ⟨_, hzero⟩
  · exact ((h.grown.path _ hlast).own_lastAt (Nat.lt_succ_of_le hle)).2
  · rw [hzero] at hle
    obtain rfl := Nat.le_zero.mp hle
    exact ownsRawLines_of_root hroot

theorem Parted.parentNode (h : Parted g r) (hroot : r.outline.root.kind = .root) :
    r.outline.parentNode.ownsRawLines = false := by
  rw [Outline.parentNode, h.grown.atLevel.parent]
  exact h.ownsRawLines_lastAt hroot (Nat.le_refl _)

theorem Node.Sound.withChildren {i : Bool} (htakes : TakesStatements n) (h : n.Sound i)
    (cs : List Node) : (n.withChildren cs).Sound i :=
  ⟨h.1.withChildren htakes.1 cs, HoldsRawLines.withChildren htakes.2 cs⟩

theorem nests_takesStatements : Nests TakesStatements where
  canNest := fun _ h => h.1.canNest
  withChildren := fun _ h _ => ⟨accepts_withChildren.mpr h.1, ownsRawLines_withChildren.trans h.2⟩

/-- A statement goes to a node that takes statements, unless a block is entered again. -/
theorem Parted.takesStatements (h : Parted g r) (hset : Settled g source filename firstLine es r)
    {level : Nat} (hreach : level ≤ reach (statementsOf es))
    (hopen : (r.outline.root.lastAt level).Accepts)
    (hbelow : level = r.indent.level + 1 → (r.outline.root.lastAt level).ownsRawLines = false) :
    TakesStatements (r.outline.root.lastAt level) := by
  refine ⟨hopen, ?_⟩
  have hle := Nat.le_trans hreach reach_le
  rw [← hset.level] at hle
  by_cases hlevel : level = r.indent.level + 1
  · exact hbelow hlevel
  · exact h.ownsRawLines_lastAt hset.isRoot (by omega)

theorem Run.parted (hrun : Run g (.opening g source filename firstLine) es r)
    (hnot : ¬ Reenters g (.opening g source filename firstLine)) : Parted g r := by
  induction hrun with
  | start => exact ⟨grown_start _ _, .leaf ⟨trivial, trivial⟩ rfl⟩
  | @step es said r₁ r₂ r₃ before reads places ih =>
    have hset := before.settled
    have hadv := advances_of_run reads places
    cases said with
    | blank =>
      cases hadv with
      | blank entered indent =>
      refine ⟨?_, ?_⟩
      · rw [entered.outline, indent]
        exact ih.grown
      · rw [entered.outline]
        exact ih.sound
    | statement node level previous =>
      have hplaced := hset.placed hadv
      have htakes : TakesStatements (r₁.outline.root.lastAt level) := by
        apply ih.takesStatements hset hplaced.reach hplaced.accepts
        intro hlevel
        by_contra howns
        exact hnot (before.reenters reads places hlevel (by simpa using howns))
      have hle : level ≤ r₁.indent.level + 1 := by
        rw [hset.level]
        exact Nat.le_trans hplaced.reach reach_le
      have hfirst := hset.levelled.level_eq_zero hplaced.reach
      refine ⟨?_, ?_⟩
      · rw [hplaced.outline, hplaced.level]
        exact ih.grown.withStatement nests_takesStatements hle hfirst htakes
      · rw [hplaced.outline]
        exact Everywhere.addChildAt (fun _ cs hm hs => Node.Sound.withChildren hm hs cs)
          (ih.grown.path_parent hle hfirst) htakes ih.sound hplaced.node.sound

end Parted

namespace Node

/-- A text value that holds characters only. -/
def IsPlain (v : Value) : Prop := ∃ s, v = .str (.chars s)

/-- A list whose items are all accepted is accepted, and what is made of it. -/
theorem mapM_bind_ok {α β γ ε : Type} {f : α → Except ε β} {k : List β → Except ε γ} {as : List α}
    (hf : ∀ a ∈ as, ∃ b, f a = .ok b) (hk : ∀ bs, ∃ c, k bs = .ok c) :
    ∃ c, as.mapM f >>= k = .ok c := by
  induction as generalizing k with
  | nil =>
    rw [List.mapM_nil]
    exact hk []
  | cons a as ih =>
    obtain ⟨b, hb⟩ := hf a List.mem_cons_self
    obtain ⟨c, hc⟩ := ih (k := fun bs => k (b :: bs)) (fun a ha => hf a (List.mem_cons_of_mem _ ha))
      fun bs => hk (b :: bs)
    refine ⟨c, ?_⟩
    rw [List.mapM_cons, hb]
    change ((as.mapM f >>= fun bs => pure (b :: bs)) >>= k) = .ok c
    rw [bind_assoc, ← hc]
    simp only [pure_bind]

theorem joinTexts_ok (separator : String) {texts : List Value} (h : ∀ v ∈ texts, IsPlain v) :
    ∃ text, joinTexts separator texts = .ok text := by
  refine mapM_bind_ok (fun v hv => ?_) fun strings => ⟨separator.intercalate strings, rfl⟩
  obtain ⟨s, rfl⟩ := h v hv
  exact ⟨s, rfl⟩

theorem lineTexts_ok {ns : List Node} (h : ∀ n ∈ ns, ∃ v, n.lineText = .ok v ∧ IsPlain v) :
    ∃ texts, lineTexts ns = .ok texts ∧ ∀ v ∈ texts, IsPlain v := by
  induction ns with
  | nil => exact ⟨[], rfl, by simp⟩
  | cons n ns ih =>
    obtain ⟨v, hv, hplain⟩ := h n List.mem_cons_self
    obtain ⟨texts, htexts, hall⟩ := ih fun m hm => h m (List.mem_cons_of_mem _ hm)
    refine ⟨v :: texts, ?_, ?_⟩
    · rw [lineTexts, hv, htexts]
      rfl
    · intro w hw
      rcases List.mem_cons.mp hw with rfl | hw
      · exact hplain
      · exact hall w hw

theorem StringParts.lineText_ok {parts : List Node} (h : StringParts parts) (e : Escaping)
    (p : Option Position) :
    ∃ v, (interpolatedString parts e p).lineText = .ok v ∧ IsPlain v := by
  have hparts : ∀ n ∈ parts, ∃ v, n.lineText = .ok v ∧ IsPlain v := by
    intro n hn
    rcases h.kinds n hn with ⟨s, q, rfl⟩ | ⟨s, e, w, q, rfl⟩
    · exact ⟨_, rfl, s, rfl⟩
    · exact ⟨_, rfl, _, rfl⟩
  obtain ⟨texts, htexts, hall⟩ := lineTexts_ok hparts
  obtain ⟨text, htext⟩ := joinTexts_ok "" hall
  refine ⟨.str (.chars text), ?_, text, rfl⟩
  rw [lineText, htexts]
  change (do return .str (.chars (← joinTexts "" texts)) : Except FilterError Value) = _
  rw [htext]
  rfl

/-- A filter that holds the lines of its block has a text. -/
theorem filterContent_ok {i : Bool} {n : Node} (h : n.Everywhere (Sound i)) (hk : n.kind = .filter) :
    ∃ text, n.filterContent = .ok text := by
  cases n <;> simp only [kind, reduceCtorEq] at hk
  rename_i name children p
  have hlines : ∀ m ∈ children.map unwrap, ∃ v, m.lineText = .ok v ∧ IsPlain v := by
    intro m hm
    obtain ⟨c, hc, rfl⟩ := List.mem_map.mp hm
    rcases h.here.2 c hc with ⟨s, q, q', rfl⟩ | ⟨_, parts, e, q, q', rfl⟩
    · exact ⟨_, rfl, s, rfl⟩
    · have hstring := (h.of_mem hc).of_mem (m := .interpolatedString parts e q) List.mem_cons_self
      exact hstring.here.1.lineText_ok e q
  obtain ⟨texts, htexts, hall⟩ := lineTexts_ok hlines
  obtain ⟨text, htext⟩ := joinTexts_ok "\n" hall
  refine ⟨text, ?_⟩
  rw [filterContent, Node.children, htexts]
  exact htext

end Node

/-- A block that is entered again has a statement below its owner. -/
theorem Reenters.exists_parent {g : Grammar} {source filename : String} {firstLine : Int}
    (h : Reenters g (.opening g source filename firstLine)) :
    ∃ es r, Run g (.opening g source filename firstLine) es r ∧
      r.outline.parentNode.ownsRawLines := by
  obtain @⟨es, blanks, owner, node, level, previous, line, r₁, r₂, r₃, r₄, hrun, howns, _, _, hpasses,
    hblank, reads, places⟩ := h
  obtain ⟨_, _, hstart, hreads, hplaces⟩ := hrun.exists_of_concat
  have howner := hstart.settled.placed (advances_of_run hreads hplaces)
  have hboth := hrun.trans hpasses
  have hnested := hboth.settled.placed (advances_of_run reads places)
  have houtline : r₂.outline = r₁.outline := (hpasses.eq_of_blanks fun e he => by
    rcases List.mem_cons.mp he with rfl | he
    · rfl
    · exact hblank e he).1
  refine ⟨_, _, .step hboth reads places, ?_⟩
  obtain ⟨cs, hcs⟩ := hnested.sameHead_parentNode
  rw [hcs, ownsRawLines_withChildren, houtline, howner.lastAt_eq]
  exact howns

/-- A source without a line that holds only a bar enters no block again. -/
theorem not_reenters_of_no_bar {g : Grammar} {source filename : String} {firstLine : Int}
    (h : ∀ line ∈ Text.Line.ofSource source.toList, Text.trim line.text ≠ ['|']) :
    ¬ Reenters g (.opening g source filename firstLine) := by
  intro hq
  obtain ⟨hrun, _, hleaves, hbar, _, _, _, _⟩ := hq
  obtain ⟨line, hline, rfl⟩ := Option.map_eq_some_iff.mp hleaves
  have hmem := List.mem_of_getElem? hline
  rw [hrun.settled.lines] at hmem
  exact h line hmem hbar

/-- In a template that can be read, filters and silent comments hold the lines of their blocks and
nothing else, every filter has a text, and no statement is added below them, unless a block is
entered again over a line that holds only a bar. -/
theorem holdsRawLines_iff {g : Grammar} {source filename : String} {firstLine : Int} {root : Node}
    (h : (readTemplate g source filename firstLine).1 = .ok root) :
    ((root.Everywhere (HoldsRawLines g.options.interpolateFilters.isTrue) ∧
        root.Everywhere (fun n => n.kind = .filter → ∃ text, n.filterContent = .ok text) ∧
        ∀ es r, Run g (.opening g source filename firstLine) es r →
          r.outline.parentNode.ownsRawLines = false) ↔
      ¬ Reenters g (.opening g source filename firstLine)) ∧
    ((∀ line ∈ Text.Line.ofSource source.toList, Text.trim line.text ≠ ['|']) →
      ¬ Reenters g (.opening g source filename firstLine)) := by
  refine ⟨⟨?_, ?_⟩, not_reenters_of_no_bar⟩
  · rintro ⟨_, _, hparents⟩ hreenters
    obtain ⟨es, r, hrun, howns⟩ := hreenters.exists_parent
    simp [hparents es r hrun] at howns
  · intro hnot
    obtain ⟨es, r, _, hrun, _, rfl⟩ := exists_run_of_readTemplate h
    have hsound := (hrun.parted hnot).sound
    refine ⟨hsound.imp fun _ hm => hm.2, hsound.deep.imp fun _ hm => filterContent_ok hm, ?_⟩
    intro es' r' hrun'
    exact (hrun'.parted hnot).parentNode hrun'.settled.isRoot

/-- A filter and a silent comment with their blocks. -/
theorem holdsRawLines_blocks : ∃ root,
    (readTemplate (.standard .haml) ":f\n  a | b\n-# c\n  d\n" "t" 1).1 = .ok root ∧
      root.Everywhere (HoldsRawLines false) := by
  have heval : (readTemplate (.standard .haml) ":f\n  a | b\n-# c\n  d\n" "t" 1).1.toOption.isSome := by
    decide +kernel
  rcases hread : (readTemplate (.standard .haml) ":f\n  a | b\n-# c\n  d\n" "t" 1).1 with _ | root
  · rw [hread] at heval
    cases heval
  · obtain ⟨hiff, hbarless⟩ := holdsRawLines_iff hread
    exact ⟨root, rfl, (hiff.mpr (hbarless (by decide))).1⟩

/-- A line with a bar leaves the block of a filter, and the tag after it is nested in the filter,
which has no text any more. -/
theorem tag_below_filter : ∃ root,
    (readTemplate (.standard .haml) "%a\n  %b\n:f\n |\n  %x" "t" 1).1 = .ok root ∧
      ¬ root.Everywhere (HoldsRawLines false) ∧
      ∃ n ∈ root.children, n.kind = .filter ∧ ∀ text, n.filterContent ≠ .ok text := by
  have heval : ((readTemplate (.standard .haml) "%a\n  %b\n:f\n |\n  %x" "t" 1).1.toOption.map
      fun root => root.children.map fun n => (n.kind, n.children.map kind)) =
        some [(.tag, [.tag]), (.filter, [.tag])] := by decide +kernel
  rcases hread : (readTemplate (.standard .haml) "%a\n  %b\n:f\n |\n  %x" "t" 1).1 with _ | root
  · rw [hread] at heval
    cases heval
  rw [hread] at heval
  have hkinds : (root.children.map fun n => (n.kind, n.children.map kind)) =
      [(.tag, [.tag]), (.filter, [.tag])] := Option.some.inj heval
  have hmem : (Kind.filter, [Kind.tag]) ∈
      root.children.map fun n => (n.kind, n.children.map kind) := by
    rw [hkinds]
    simp
  obtain ⟨n, hn, heq⟩ := List.mem_map.mp hmem
  obtain ⟨hkind, hbelow⟩ := Prod.mk.inj heq
  obtain ⟨d, hd, hdkind⟩ := List.map_eq_singleton_iff.mp hbelow
  refine ⟨root, rfl, fun hraw => ?_, n, hn, hkind, ?_⟩
  all_goals
    cases n <;> simp only [kind, reduceCtorEq] at hkind
    simp only [Node.children] at hd
    subst hd
  · rcases (hraw.of_mem (children_subset_subnodes hn)).here d List.mem_cons_self with
      ⟨s, p, q, rfl⟩ | ⟨hfalse, _⟩
    · cases hdkind
    · cases hfalse
  · intro text htext
    cases d <;> simp only [kind, reduceCtorEq] at hdkind
    cases htext

end TemplateTree
