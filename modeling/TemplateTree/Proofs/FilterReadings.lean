import TemplateTree.Proofs.CutLines
import TemplateTree.Proofs.Paired.Lines
import TemplateTree.Proofs.Units

/-!
# Lines read with both settings

Whether filters are interpolated matters to the lines of filters only. Every other production is the
same with both settings and gives no filter. So what the next line says with interpolated filters is
what it says without, but for the lines of a filter, which are cut.
-/

set_option autoImplicit false

namespace TemplateTree

def Grammar.withInterpolation (interpolate : Value) (g : Grammar) : Grammar :=
  { g with options := { g.options with interpolateFilters := interpolate } }

namespace Production
open Node

theorem Ensures.of_run {α : Type} {p : Production α} {r s : Reading} {a : α}
    {Q : α → Reading → Prop} {E : Failure → Reading → Prop} (h : Ensures p r Q E)
    (hrun : p.run r = (.ok a, s)) : Q a s := by
  unfold Ensures at h
  rwa [hrun] at h

/-- Whatever the second production gives in a reading, the first one gives something like it, and
leaves the same reading. -/
def Matches {α β : Type} (p : Production α) (p' : Production β) (r : Reading) (R : α → β → Prop) :
    Prop :=
  ∀ a' s, p'.run r = (.ok a', s) → ∃ a, p.run r = (.ok a, s) ∧ R a a'

section Matches
variable {α α' β β' : Type} {r : Reading}

theorem Matches.bind {p : Production α} {p' : Production α'} {f : α → Production β}
    {f' : α' → Production β'} {R : α → α' → Prop} {S : β → β' → Prop} (hp : Matches p p' r R)
    (hf : ∀ a a' s, p'.run r = (.ok a', s) → R a a' → Matches (f a) (f' a') s S) :
    Matches (p >>= f) (p' >>= f') r S := by
  intro b' t hrun
  rw [run_bind] at hrun
  rcases hfirst : p'.run r with ⟨e | a', s⟩
  · rw [hfirst] at hrun
    cases hrun
  · rw [hfirst] at hrun
    obtain ⟨a, hown, hrel⟩ := hp a' s hfirst
    obtain ⟨b, hrest, hb⟩ := hf a a' s hfirst hrel b' t hrun
    refine ⟨b, ?_, hb⟩
    rw [run_bind, hown]
    exact hrest

/-- A step that both productions take. -/
theorem Matches.after {p : Production α} {f : α → Production β} {f' : α → Production β'}
    {S : β → β' → Prop} (hf : ∀ a s, p.run r = (.ok a, s) → Matches (f a) (f' a) s S) :
    Matches (p >>= f) (p >>= f') r S := by
  refine Matches.bind (R := Eq) (fun a s hrun => ⟨a, hrun, rfl⟩) ?_
  rintro a _ s hrun rfl
  exact hf a s hrun

theorem Matches.pure {a : α} {b : β} {S : α → β → Prop} (h : S a b) :
    Matches (pure a) (pure b) r S := by
  intro b' s hrun
  obtain ⟨hvalue, rfl⟩ := Prod.mk.inj hrun
  obtain rfl := Except.ok.inj hvalue
  exact ⟨a, rfl, h⟩

theorem matches_firstOf_cons {p p' : Production (Option Node)}
    {ps ps' : List (Production (Option Node))} {S : Node → Node → Prop}
    (hp : Matches p p' r (Option.Rel S))
    (hps : ∀ s, p'.run r = (.ok none, s) → Matches (firstOf ps) (firstOf ps') s (Option.Rel S)) :
    Matches (firstOf (p :: ps)) (firstOf (p' :: ps')) r (Option.Rel S) := by
  refine hp.bind fun n n' s hrun hrel => ?_
  cases hrel with
  | none => exact hps s hrun
  | some hn => exact .pure (.some hn)

end Matches

/-- What the productions of statements other than filters give: nothing is nested in it but the
lines of a silent comment, and it is no line of a block. -/
structure Unfiltered (n : Node) : Prop where
  kind : n.kind ≠ .filter
  line : ¬ n.IsTextLine
  children : n.children = [] ∨ n.ownsRawLines

/-- What a production gives in all readings. -/
def Gives (P : Node → Prop) (p : Production (Option Node)) : Prop :=
  ∀ r, Ensures p r (fun n _ => ∀ m ∈ n, P m) fun _ _ => True

section Gives
variable {α : Type} {P Q : Node → Prop} {n : Node}

theorem gives_bind {p : Production α} {f : α → Production (Option Node)}
    (hf : ∀ a, Gives P (f a)) : Gives P (p >>= f) :=
  fun r => Ensures.bind (Ensures.trivial p r) fun a s _ => hf a s

theorem gives_none : Gives P (pure none) := fun _ _ hm => by cases hm

theorem gives_some (h : P n) : Gives P (pure (some n)) := by
  intro r m hm
  rwa [← Option.some.inj hm]

theorem Gives.imp {p : Production (Option Node)} (h : Gives P p) (hpq : ∀ m, P m → Q m) :
    Gives Q p :=
  fun r => (h r).imp (fun _ _ hn m hm => hpq m (hn m hm)) fun _ _ he => he

/-- A string that is read, and what is made of it. -/
theorem gives_string {f : Node → Production (Option Node)} {q : Quoting}
    (hf : ∀ parts e p, Gives P (f (.interpolatedString parts e p))) :
    Gives P (interpolatedString q >>= f) := by
  intro r
  have hstring : Ensures (interpolatedString q) r
      (fun n _ => ∃ parts e p, n = .interpolatedString parts e p) fun _ _ => True := by
    have hbody (s : Reading) : Ensures (stringBody q) s
        (fun n _ => ∃ parts e p, n = .interpolatedString parts e p) fun _ _ => True := by
      unfold stringBody
      rw [ensures_cursor_bind]
      refine Ensures.bind (Ensures.trivial _ _) fun parts t _ => ?_
      refine Ensures.bind (Ensures.trivial _ _) fun _ t _ => ?_
      refine Ensures.bind (Ensures.trivial _ _) fun _ t _ => ?_
      rw [ensures_cursor_bind]
      exact ⟨_, _, _, rfl⟩
    unfold interpolatedString
    split
    · refine Ensures.bind (Ensures.trivial _ _) fun eaten s _ => ?_
      split
      · exact Ensures.bind (Ensures.trivial _ _) fun _ s _ => hbody s
      · exact hbody _
    · exact hbody _
  refine Ensures.bind hstring ?_
  rintro _ s ⟨parts, e, p, rfl⟩
  exact hf parts e p s

theorem gives_comment? (g : Grammar) : Gives (fun n => n.kind = .comment ∧
    (n.children = [] ∨ n.ownsRawLines)) (comment? g) := by
  unfold comment?
  refine gives_bind fun c => gives_bind fun m => ?_
  cases m with
  | none => exact gives_none
  | some m =>
    dsimp only
    split
    all_goals
      refine gives_bind fun condition => gives_bind fun inner => gives_bind fun text => ?_
      split
      · exact gives_some ⟨rfl, Or.inl rfl⟩
      · exact gives_bind fun children => gives_bind fun _ => gives_some ⟨rfl, Or.inr rfl⟩

theorem unfiltered_comment? (g : Grammar) : Gives Unfiltered (comment? g) := by
  refine (gives_comment? g).imp fun n hn => ⟨by simp [hn.1], ?_, hn.2⟩
  intro hline
  cases n with
  | statement => cases hn.1
  | _ => exact hline

theorem unfiltered_run? : Gives Unfiltered run? := by
  unfold run?
  refine gives_bind fun c => gives_bind fun m => ?_
  cases m with
  | none => exact gives_none
  | some m =>
    exact gives_bind fun _ => gives_bind fun code => gives_some ⟨nofun, id, Or.inl rfl⟩

theorem unfiltered_doctype? (d : Dialect) : Gives Unfiltered (doctype? d) := by
  unfold doctype?
  refine gives_bind fun c => gives_bind fun m => ?_
  cases m with
  | none => exact gives_none
  | some m => exact gives_some ⟨nofun, id, Or.inl rfl⟩

theorem unfiltered_tag? (g : Grammar) : Gives Unfiltered (tag? g) := by
  unfold tag?
  refine gives_bind fun c => gives_bind fun m => ?_
  cases m with
  | none => exact gives_none
  | some m =>
    refine gives_bind fun attributes => gives_bind fun flags => gives_bind fun end' =>
      gives_bind fun _ => gives_bind fun content => ?_
    cases content with
    | none => exact gives_some ⟨nofun, id, Or.inl rfl⟩
    | some content =>
      dsimp only
      split
      · exact gives_bind fun _ => gives_bind fun _ => gives_some ⟨nofun, id, Or.inl rfl⟩
      · exact gives_some ⟨nofun, id, Or.inl rfl⟩

theorem unfiltered_statement {parts : List Node} {e : Escaping} {p q : Option Position} :
    Unfiltered (.statement (.interpolatedString parts e p) q) := ⟨nofun, id, Or.inl rfl⟩

theorem unfiltered_literalLine? (g : Grammar) : Gives Unfiltered (literalLine? g) := by
  have markup : Gives Unfiltered (do
      if ← eat .markup then return some (← interpolatedString .bare).wrap
      return none) := by
    refine gives_bind fun eaten => ?_
    split
    · exact gives_string fun _ _ _ => gives_some unfiltered_statement
    · exact gives_none
  unfold literalLine?
  refine gives_bind fun c => ?_
  split
  · refine gives_bind fun eaten => ?_
    split
    · exact gives_string fun _ _ _ => gives_some unfiltered_statement
    · exact markup
  · exact markup

theorem unfiltered_extra? (g : Grammar) : Gives Unfiltered (extra? g) := by
  unfold extra?
  split
  · exact gives_none
  · refine fun r => Ensures.bind (unfiltered_doctype? .jade r) fun n s hn => ?_
    cases n with
    | none => exact unfiltered_literalLine? g s
    | some n => exact hn

/-- What may follow a tag on its line is no text. -/
theorem gives_inline? (g : Grammar) : Gives (·.kind ≠ .text) (inline? g) := by
  have plain : Gives (·.kind ≠ .text) (do
      if Text.isBlankLine (← cursor).rest then return none
      return some (← interpolatedString .bare)) := by
    refine gives_bind fun c => ?_
    split
    · exact gives_none
    · exact gives_string fun _ _ _ => gives_some nofun
  unfold inline?
  refine gives_bind fun c => gives_bind fun m => ?_
  cases m with
  | some m =>
    dsimp only
    split
    · exact gives_string fun _ _ _ => gives_bind fun _ => gives_some nofun
    · refine gives_bind fun text => ?_
      rw [pure_bind]
      exact gives_bind fun _ => gives_some nofun
  | none =>
    intro r
    refine Ensures.bind (gives_comment? g r) fun n s hn => ?_
    cases n with
    | some n =>
      intro m hm hkind
      cases (hn m hm).1.symm.trans hkind
    | none =>
      refine gives_bind (fun next => ?_) s
      split
      · exact gives_bind fun _ => plain
      · exact plain

theorem unfiltered_inline (g : Grammar) : Gives Unfiltered (do return (← inline? g).map wrap) := by
  intro r
  refine Ensures.bind (gives_inline? g r) fun n s hn => ?_
  intro m hm
  obtain ⟨content, hcontent, rfl⟩ := Option.map_eq_some_iff.mp hm
  refine ⟨nofun, ?_, Or.inl rfl⟩
  intro hline
  have hkind := hn content hcontent
  cases content <;> first | exact hline | exact hkind rfl

end Gives

/-- A text that can be read as a string, as a line of a block. -/
def IsReadableLine (n : Node) : Prop :=
  ∃ s p q, n = .statement (.text (.str (.chars s)) p) q ∧ ¬ Reaches Blocked s.toList

/-- Lines of a filter, and the lines where filters are interpolated. -/
structure CutsLines (ms ns : List Node) : Prop where
  mapped : ns = ms.map (mapLine cutLine)
  readable : ∀ m ∈ ms, IsReadableLine m

theorem CutsLines.cons {m n : Node} {ms ns : List Node} (hm : IsReadableLine m)
    (hn : n = mapLine cutLine m) (h : CutsLines ms ns) : CutsLines (m :: ms) (n :: ns) where
  mapped := by rw [hn, h.mapped, List.map_cons]
  readable := List.forall_mem_cons.mpr ⟨hm, h.readable⟩

/-- A statement, and the one that is read there where filters are interpolated. -/
structure Cuts (m n : Node) : Prop where
  mapped : n = m.mapLines cutLine
  reads : m.Throughout ReadsLines
  line : ¬ m.IsTextLine

theorem Unfiltered.cuts {n : Node} (h : Unfiltered n)
    (hraw : n.ownsRawLines → ∀ c ∈ n.children, c.IsRawLine) : Cuts n n := by
  have hchildren : ∀ c ∈ n.children, c.IsRawLine := by
    rcases h.children with hnil | howns
    · simp [hnil]
    · exact hraw howns
  refine ⟨(mapLines_eq_self h.kind fun c hc => ?_).symm, .intro (fun hk => absurd hk h.kind)
    fun c hc => ?_, h.line⟩
  · obtain ⟨s, p, q, rfl⟩ := hchildren c hc
    rfl
  · obtain ⟨s, p, q, rfl⟩ := hchildren c hc
    exact .intro nofun nofun

section Lines
variable {g : Grammar} {on off : Value} {r : Reading} {line : List Char} {blank : Bool}

/-- Behind the indentation of its block, something is left of a line that is not blank. -/
theorem drop_margin_ne_nil {t : Indent} (h : t.Regular) (hin : inBlock t line)
    (hblank : Text.isBlankLine line = false) : line.drop (t.margin line) ≠ [] := by
  intro hnil
  have hprefix : t.below 1 line <+: line := by
    rw [inBlock, hblank, Bool.false_or, Bool.and_eq_true] at hin
    exact List.isPrefixOf_iff_prefix.mp hin.2
  have hmargin : t.margin line = (t.below 1 line).length := by
    rw [Indent.margin, hblank]
    rfl
  rw [hmargin, List.drop_eq_nil_iff] at hnil
  have hwhole : t.below 1 line = line := hprefix.eq_of_length_le hnil
  have hindent : ∀ c ∈ t.below 1 line, Text.isIndent c := by
    intro c hc
    unfold Indent.below at hc
    split at hc
    · rename_i u hunit
      rw [List.eq_of_mem_replicate hc]
      exact (h u hunit).2
    · split at hc
      · split at hc
        · rwa [List.mem_singleton.mp hc]
        · cases hc
      · cases hc
  have hall : Text.isBlankLine line := by
    rw [hwhole] at hindent
    exact List.all_eq_true.mpr fun c hc => Text.isBlank_of_isIndent (hindent c hc)
  rw [hall] at hblank
  cases hblank

variable (hon : on.isTrue) (hoff : off.isTrue = false)
include hon hoff

theorem matches_filterLine (h : r.cursor.Inside) (hne : blank = false → r.cursor.rest ≠ []) :
    Matches (filterLine (g.withInterpolation off) blank)
      (filterLine (g.withInterpolation on) blank) r fun m n => IsReadableLine m ∧ n = mapLine cutLine m := by
  intro n s hrun
  cases blank with
  | true =>
    obtain ⟨hn, rfl⟩ := Prod.mk.inj hrun
    obtain rfl := Except.ok.inj hn
    exact ⟨_, rfl, ⟨"", _, _, rfl, Blocked.not_reaches_nil⟩, rfl⟩
  | false =>
    have hreaches : ¬ Reaches Blocked r.cursor.rest := by
      intro hreaches
      obtain ⟨e, t, herror⟩ :=
        run_filterLine_refused (g := g.withInterpolation on) h ⟨hon, hreaches⟩
      cases hrun.symm.trans herror
    obtain ⟨stopped, hstring⟩ := run_bareString h hreaches
    unfold filterLine at hrun ⊢
    rw [if_neg Bool.false_ne_true] at hrun ⊢
    have hon' : (g.withInterpolation on).options.interpolateFilters.isTrue := hon
    have hoff' : ¬ (g.withInterpolation off).options.interpolateFilters.isTrue := by
      rw [Bool.not_eq_true]
      exact hoff
    rw [if_pos hon', run_bind, hstring] at hrun
    obtain ⟨hn, rfl⟩ := Prod.mk.inj hrun
    obtain rfl := Except.ok.inj hn
    rw [if_neg hoff']
    refine ⟨(ofText r.cursor.rest r.cursor.position).wrap, rfl,
      ⟨String.ofList r.cursor.rest, _, _, rfl, by rwa [String.toList_ofList]⟩, ?_⟩
    have hcut : cutLine (ofText r.cursor.rest r.cursor.position) =
        ofParts r.cursor stopped (Part.read .bare r.cursor.column r.cursor.rest).1 :=
      cutLine_ofText (hne rfl) hreaches
    change (ofParts r.cursor stopped _).wrap = .statement (cutLine (ofText _ _)) _
    rw [hcut]
    rfl

theorem matches_blockLines (hregular : r.indent.Regular) {lines rest : List (List Char)}
    (hl : r.cursor.upcoming = lines ++ rest) (hin : ∀ line ∈ lines, inBlock r.indent line) :
    Matches (lines.mapM fun line => do filterLine (g.withInterpolation off) (← enterBlockLine line))
      (lines.mapM fun line => do filterLine (g.withInterpolation on) (← enterBlockLine line)) r
      CutsLines := by
  induction lines generalizing r with
  | nil => exact .pure ⟨rfl, nofun⟩
  | cons line lines ih =>
    have hp := Cursor.peekLine_of_upcoming hl
    have hline := hin line List.mem_cons_self
    rw [List.mapM_cons, List.mapM_cons]
    have hfirst : Matches (do filterLine (g.withInterpolation off) (← enterBlockLine line))
        (do filterLine (g.withInterpolation on) (← enterBlockLine line)) r
        fun m n => IsReadableLine m ∧ n = mapLine cutLine m := by
      refine .after fun blank s hentered => ?_
      obtain ⟨hblank, rfl⟩ := Prod.mk.inj ((run_enterBlockLine hp).symm.trans hentered)
      obtain rfl := Except.ok.inj hblank
      refine matches_filterLine hon hoff
        (Cursor.onward_skip (Cursor.onward_nextLine hp).1.inside _).inside fun hblank => ?_
      rw [rest_skip_margin hp]
      exact drop_margin_ne_nil hregular hline hblank
    refine Matches.bind hfirst fun m n s hrun hmn => ?_
    -- the line behind is known from the reading that keeps the text, which is never refused
    obtain ⟨m', hplain, -⟩ := hfirst n s hrun
    obtain ⟨-, rfl⟩ := Prod.mk.inj
      ((run_blockText (g := g.withInterpolation off) hoff hp hline).symm.trans hplain)
    refine Matches.bind (ih hregular (Cursor.upcoming_nextLine hl)
      fun l hl => hin l (List.mem_cons_of_mem _ hl)) fun ms ns _ _ hmore =>
        .pure (hmore.cons hmn.1 hmn.2)

theorem matches_block (hregular : r.indent.Regular) :
    Matches (block (filterLine (g.withInterpolation off)))
      (block (filterLine (g.withInterpolation on))) r CutsLines := by
  refine .after fun r' s hget => ?_
  obtain ⟨hr, rfl⟩ := Prod.mk.inj hget
  obtain rfl := Except.ok.inj hr
  exact matches_blockLines hon hoff hregular
    (List.takeWhile_append_dropWhile (p := inBlock r.indent)).symm
    fun line hline => List.mem_takeWhile_imp hline

end Lines

/-- A filter, and the one with its lines cut. -/
theorem cuts_filter {ms ns : List Node} (h : CutsLines ms ns) (name : Value)
    (p : Option Position) : Cuts (.filter name ms p) (.filter name ns p) := by
  have hsame : ms.map (mapLines cutLine) = ms := by
    refine (List.map_congr_left fun m hm => ?_).trans (List.map_id _)
    obtain ⟨s, q, q', rfl, -⟩ := h.readable m hm
    rfl
  refine ⟨?_, .intro (fun _ s q q' hm => ?_) fun m hm => ?_, id⟩
  · rw [mapLines, mapLinesIn_eq_map, hsame, ← h.mapped]
  · obtain ⟨s', _, _, heq, hreads⟩ := h.readable _ hm
    cases heq
    exact hreads
  · obtain ⟨s, q, q', rfl, -⟩ := h.readable m hm
    exact .intro (fun hkind => by cases hkind) (fun m hm => by cases hm)

section Statements
variable {g : Grammar} {on off : Value} {r : Reading}

theorem regular_of_onward {r' : Reading} (h : r.Onward r') (hregular : r.indent.Regular) :
    r'.indent.Regular := by
  rw [h.indent]
  exact hregular

/-- A production that does not depend on the setting, where it gives no filter. -/
theorem Gives.matches {p : Production (Option Node)} (h : Gives Unfiltered p) :
    Matches p p r (Option.Rel fun m n => m = n ∧ Unfiltered m ∨ Cuts m n) := by
  intro n s hrun
  have hgives := (h r).of_run hrun
  refine ⟨n, hrun, ?_⟩
  cases n with
  | none => exact .none
  | some n => exact .some (Or.inl ⟨rfl, hgives n rfl⟩)

variable (hon : on.isTrue) (hoff : off.isTrue = false)
include hon hoff

theorem matches_filter? (h : r.cursor.Inside) (hregular : r.indent.Regular) :
    Matches (filter? (g.withInterpolation off)) (filter? (g.withInterpolation on)) r
      (Option.Rel Cuts) := by
  unfold filter?
  refine .after fun c s hcursor => ?_
  obtain ⟨-, rfl⟩ := Prod.mk.inj hcursor
  refine .after fun m s heat => ?_
  cases m with
  | none => exact .pure .none
  | some m =>
    obtain ⟨hon', -⟩ := (reads_eat? h _).of_run heat
    refine .bind (matches_block hon hoff (hon'.indent ▸ hregular)) fun ms ns t _ hlines => ?_
    rw [show ns.length = ms.length by rw [hlines.mapped, List.length_map]]
    exact .after fun _ _ _ => .pure (.some (cuts_filter hlines _ _))

theorem matches_statement? (h : r.cursor.Inside) (hregular : r.indent.Regular) :
    Matches (statement? (g.withInterpolation off)) (statement? (g.withInterpolation on)) r
      (Option.Rel Cuts) := by
  have hfound : Matches (statement? (g.withInterpolation off)) (statement? (g.withInterpolation on))
      r (Option.Rel fun m n => m = n ∧ Unfiltered m ∨ Cuts m n) := by
    refine matches_firstOf_cons (unfiltered_extra? g).matches fun s hextra => ?_
    obtain ⟨hon₁, hnone⟩ := (reads_extra? h g).of_run hextra
    refine matches_firstOf_cons (unfiltered_tag? g).matches fun t htag => ?_
    obtain ⟨hon₂, -⟩ := (reads_tag? hon₁.inside g).of_run htag
    have hfilter := matches_filter? (g := g) hon hoff hon₂.inside
      ((hon₁.trans hon₂).indent ▸ hregular)
    refine matches_firstOf_cons (fun n u hrun => ?_) fun u _ => ?_
    · obtain ⟨m, hm, hrel⟩ := hfilter n u hrun
      refine ⟨m, hm, ?_⟩
      cases hrel with
      | none => exact .none
      | some hcuts => exact .some (Or.inr hcuts)
    refine matches_firstOf_cons (unfiltered_comment? g).matches fun _ _ => ?_
    refine matches_firstOf_cons unfiltered_run?.matches fun _ _ => ?_
    refine matches_firstOf_cons (unfiltered_doctype? g.dialect).matches fun _ _ => ?_
    refine matches_firstOf_cons (unfiltered_inline g).matches fun _ _ => ?_
    exact .pure .none
  intro n s hrun
  obtain ⟨m, hm, hrel⟩ := hfound n s hrun
  obtain ⟨-, hreadAs⟩ := (reads_statement? h (g.withInterpolation on)).of_run hrun
  refine ⟨m, hm, ?_⟩
  cases hrel with
  | none => exact .none
  | some hrel =>
    rename_i m n
    rcases hrel with ⟨rfl, hunfiltered⟩ | hcuts
    · refine .some (hunfiltered.cuts fun howns => ?_)
      have hsound := (hreadAs m rfl).sound.here.2
      cases m with
      | comment rendered =>
        exact hsound (by simpa [ownsRawLines] using howns)
      | filter => exact absurd rfl hunfiltered.kind
      | _ => cases howns
    · exact .some hcuts

/-- What a line says, and what it says where filters are interpolated. -/
inductive CutsEntry : Entry → Entry → Prop where
  | blank : CutsEntry .blank .blank
  | statement {m n : Node} (cuts : Cuts m n) (level previous : Nat) :
      CutsEntry (.statement m level previous) (.statement n level previous)

theorem matches_entry (h : r.cursor.Inside) (hregular : r.indent.Regular) :
    Matches (entry (g.withInterpolation off)) (entry (g.withInterpolation on)) r CutsEntry := by
  unfold entry
  refine .after fun c s hcursor => ?_
  obtain ⟨hc, rfl⟩ := Prod.mk.inj hcursor
  obtain rfl := Except.ok.inj hc
  split
  · exact .pure .blank
  refine .after fun _ s hskip => ?_
  obtain ⟨hon₁, -⟩ := (reads_skipIndent h).of_run hskip
  refine .after fun s' t hget => ?_
  obtain ⟨-, rfl⟩ := Prod.mk.inj hget
  refine .after fun level t hcheck => ?_
  obtain ⟨hcursor, -, hindent⟩ := (ensures_checkIndent hon₁.inside).of_run hcheck
  have hchecked : t.indent.Regular := by
    have hregular₁ : s.indent.Regular := hon₁.indent ▸ hregular
    have ht := hregular₁.check r.cursor.rest s'.outline.last.isNone
    rwa [hindent] at ht
  have hinside : t.cursor.Inside := hcursor ▸ hon₁.inside
  refine .bind (matches_statement? hon hoff hinside hchecked) fun m n u hfound hrel => ?_
  cases hrel with
  | none =>
    intro e v hexpected
    obtain ⟨hon₂, -⟩ := (reads_statement? hinside _).of_run hfound
    have hfail : Reads (expected .statement : Production Entry) u fun _ _ => False :=
      reads_expected hon₂.inside .statement
    exact (hfail.of_run hexpected).2.elim
  | some hcuts => exact .after fun _ _ _ => .pure (.statement hcuts _ _)

theorem matches_nextEntry (hregular : r.indent.Regular) :
    Matches (nextEntry (g.withInterpolation off)) (nextEntry (g.withInterpolation on)) r
      (Option.Rel CutsEntry) := by
  cases hp : r.cursor.peekLine with
  | none =>
    intro found s hrun
    obtain ⟨hnone, rfl⟩ := Prod.mk.inj ((run_nextEntry_of_none hp).symm.trans hrun)
    obtain rfl := Except.ok.inj hnone
    exact ⟨none, run_nextEntry_of_none hp, .none⟩
  | some line =>
    have hstart : r.cursor.nextLine.2.column = 0 ∧
        r.cursor.nextLine.2.anchor = r.cursor.nextLine.2.lineIndex := by
      rw [Cursor.nextLine_eq hp]
      simp [Cursor.lineIndex]
    refine .after fun entered s hnext => ?_
    obtain ⟨hon₁, rfl, rfl⟩ := (reads_nextLine hp).of_run hnext
    refine .after fun _ t hjoin => ?_
    obtain ⟨hon₂, -⟩ := (reads_joinMultiline hon₁.inside hstart.1 hstart.2).of_run hjoin
    exact .bind (matches_entry hon hoff hon₂.inside (regular_of_onward (hon₁.trans hon₂) hregular))
      fun e e' _ _ hcuts => .pure (.some hcuts)

end Statements

end Production

end TemplateTree
