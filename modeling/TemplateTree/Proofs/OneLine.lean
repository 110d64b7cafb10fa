import TemplateTree.Proofs.Paired.Lines
import TemplateTree.Proofs.Runs

/-!
# Joined lines read as one line

A line that may be joined, with the lines ahead that are joined to it, reads as their text reads on
one line. Both steps come to the same statement, add it to the same place of the tree, know the same
of the indentation and have the same lines ahead, or they fail for the same reason. Only lines and
offsets of positions tell them apart.
-/

set_option autoImplicit false

namespace TemplateTree

namespace Text

/-- A line that a joined line goes on over: it is joined too, or blank and passed over. -/
def goesOn (line : List Char) : Bool := isBlankLine line || isMultiline line

/-- What a line and the lines that it goes on over say on one line. -/
def joinedText (first : List Char) (others : List (List Char)) : List Char :=
  trimRight ((trimRight first).dropLast ++
    (others.filter fun line => !isBlankLine line).flatMap fun line => (trim line).dropLast)

/-- A joined line that goes on over `others` and not over `following`. -/
structure Group (first : List Char) (others following : List (List Char)) : Prop where
  first : isMultiline first
  others : ∀ line ∈ others, goesOn line
  following : ∀ line ∈ following.head?, goesOn line = false

variable {first : List Char} {others following : List (List Char)}

theorem joinTail_of_goesOn (hothers : ∀ line ∈ others, goesOn line)
    (hfollowing : ∀ line ∈ following.head?, goesOn line = false) :
    joinTail (others ++ following) = ((others.filter fun line => !isBlankLine line).flatMap
      (fun line => (trim line).dropLast), others.length) := by
  induction others with
  | nil =>
    cases following with
    | nil => rfl
    | cons line following =>
      have hstops := hfollowing line rfl
      rw [goesOn, Bool.or_eq_false_iff] at hstops
      simp [joinTail, hstops.1, hstops.2]
  | cons line others ih =>
    have hgoes := hothers line List.mem_cons_self
    have htail := ih fun l hl => hothers l (List.mem_cons_of_mem _ hl)
    rw [List.cons_append, joinTail, htail]
    by_cases hblank : isBlankLine line
    · simp [hblank]
    · have hm : isMultiline line := by simpa [goesOn, hblank] using hgoes
      simp [hblank, hm]

end Text

/-- A position of which only the column is kept. -/
def Position.columnOnly (p : Position) : Position := ⟨.null, p.column, .null⟩

/-- A failure without the place where it is reported. -/
def Failure.unplaced : Failure → Failure
  | .refused e => .refused { e with line := 0, column := 0 }
  | e => e

def Entry.relocate (f : Position → Position) : Entry → Entry
  | .blank => .blank
  | .statement node level previous => .statement (node.relocate f) level previous

/-- What a reading knows and has ahead, wherever its lines are. -/
structure Outlook where
  filename : String
  indent : Indent
  outline : Outline
  ahead : List (List Char)

def Reading.outlook (r : Reading) : Outlook :=
  ⟨r.cursor.filename, r.indent, r.outline.relocate Position.columnOnly, r.cursor.upcoming⟩

namespace Cursor

/-- A cursor at the start of a line that it reads, with more lines ahead. -/
structure Starts (c : Cursor) (filename : String) (line : List Char) (ahead : List (List Char)) :
    Prop where
  filename : c.filename = filename
  line : c.line = line
  column : c.column = 0
  inside : c.Inside
  upcoming : c.upcoming = ahead

variable {c : Cursor} {line first : List Char} {lines others following : List (List Char)}

theorem starts_nextLine (h : c.upcoming = line :: lines) :
    c.nextLine.2.Starts c.filename line lines := by
  have hp := peekLine_of_upcoming h
  have hinside := (onward_nextLine hp).1.inside
  have hupcoming := upcoming_nextLine h
  rw [nextLine_eq hp] at hinside hupcoming ⊢
  exact ⟨rfl, rfl, rfl, hinside, hupcoming⟩

theorem starts_of_plain (h : c.upcoming = line :: lines) (hplain : Text.isMultiline line = false) :
    c.nextLine.2.joined.Starts c.filename line lines := by
  have hstarts := starts_nextLine h
  rw [joined_of_plain (by rw [hstarts.line, hplain])]
  exact hstarts

/-- The lines that a joined line goes on over are passed, and read with it. -/
theorem starts_joined (hgroup : Text.Group first others following)
    (h : c.upcoming = first :: (others ++ following)) :
    c.nextLine.2.joined.Starts c.filename (Text.joinedText first others) following := by
  have hstarts := starts_nextLine h
  have hanchor : c.nextLine.2.anchor = c.nextLine.2.lineIndex := by
    rw [nextLine_eq (peekLine_of_upcoming h)]
    simp [lineIndex]
  have htail := Text.joinTail_of_goesOn hgroup.others hgroup.following
  rw [← hstarts.upcoming] at htail
  have hon := Production.onward_joined hstarts.inside hstarts.column hanchor htail
  have hjoined : c.nextLine.2.joined =
      ({ c.nextLine.2 with entered := c.nextLine.2.entered + others.length } : Cursor).replaceLine
        (Text.joinedText first others) c.nextLine.2.lineIndex := by
    simp only [joined, hstarts.line, hgroup.first, if_true, htail]
    rfl
  rw [hstarts.line] at hon
  rw [hjoined]
  refine ⟨hstarts.filename, rfl, rfl, hon.inside, ?_⟩
  rw [Correspondence.upcoming_skipLines, hstarts.upcoming, List.drop_left]

end Cursor

namespace Correspondence
open Production

/-- Places of any lines, of which the columns correspond. -/
def sameColumns : Correspondence where
  first := Position.columnOnly
  second := Position.columnOnly
  lies _ := True
  reads _ _ := True
  extra := []

/-- Places of any lines, of which the columns correspond, where the second source has more lines. -/
def reaching (extra : List (List Char)) : Correspondence := { sameColumns with extra }

variable {c c' : Cursor} {filename : String} {line : List Char} {ahead extra : List (List Char)}

theorem onLine_reaching (c c' : Cursor) (anchor anchor' : Int) (line : List Char) :
    (reaching extra).OnLine (c.placeOn anchor) (c'.placeOn anchor') line :=
  ⟨fun _ => ⟨rfl, trivial⟩, fun _ _ => trivial⟩

theorem ahead_reaching (hfile : c'.filename = c.filename)
    (hupcoming : c'.upcoming = c.upcoming ++ extra) : (reaching extra).Ahead c c' where
  filename := hfile
  upcoming := hupcoming
  lines _ _ _ := onLine_reaching c c' _ _ _
  joined _ _ _ _ _ := onLine_reaching c c' _ _ _

theorem together_reaching (h : c.Starts filename line ahead)
    (h' : c'.Starts filename line (ahead ++ extra)) : (reaching extra).Together c c' where
  toAhead := ahead_reaching (h'.filename.trans h.filename.symm) (by rw [h.upcoming, h'.upcoming])
  line := h'.line.trans h.line.symm
  column := h'.column.trans h.column.symm
  inside := h.inside
  inside' := h'.inside
  here := onLine_reaching c c' _ _ _

theorem together_sameColumns (h : c.Starts filename line ahead)
    (h' : c'.Starts filename line ahead) : sameColumns.Together c c' := by
  rw [← List.append_nil ahead] at h'
  exact together_reaching h h'

theorem SaysAlike.same {g : Grammar} {c : Cursor} {r r' s s' : Reading} {t : Indent} {e e' : Entry}
    (h : sameColumns.SaysAlike g c r r' t t s s' e e') (hindent : r'.indent = r.indent) :
    e.relocate Position.columnOnly = e'.relocate Position.columnOnly ∧ s.indent = s'.indent := by
  cases h with
  | blank hi hi' => exact ⟨rfl, by rw [hi, hi', hindent]⟩
  | statement hi hi' pair _ =>
    exact ⟨congrArg (fun n => Entry.statement n _ _) pair.same, hi.trans hi'.symm⟩

end Correspondence

namespace Production
open Correspondence

variable {g : Grammar} {r r' : Reading} {α β γ δ : Type}

/-- What an outcome shows: a value with an outlook, or a failure without its place. -/
def shown (view : α → β) : Except Failure α × Reading → Except Failure (β × Outlook)
  | (.ok a, r) => .ok (view a, r.outlook)
  | (.error e, _) => .error e.unplaced

theorem shown_bind {view : α → β} {view' : γ → δ} {p p' : Production α} {f f' : α → Production γ}
    (hp : shown view (p.run r) = shown view (p'.run r'))
    (hf : ∀ a a' s s', view a = view a' → s.outlook = s'.outlook →
      shown view' ((f a).run s) = shown view' ((f' a').run s')) :
    shown view' ((p >>= f).run r) = shown view' ((p' >>= f').run r') := by
  rw [run_bind, run_bind]
  generalize p.run r = x at hp ⊢
  generalize p'.run r' = x' at hp ⊢
  rcases x with ⟨e | a, s⟩ <;> rcases x' with ⟨e' | a', s'⟩
  · exact congrArg Except.error (Except.error.inj hp)
  · cases hp
  · cases hp
  · obtain ⟨ha, hs⟩ := Prod.mk.inj (Except.ok.inj hp)
    exact hf a a' s s' ha hs

theorem shown_place {said said' : Entry}
    (hsaid : said.relocate Position.columnOnly = said'.relocate Position.columnOnly)
    (h : r.outlook = r'.outlook) :
    shown id ((place said).run r) = shown id ((place said').run r') := by
  rcases said with _ | ⟨node, level, previous⟩ <;> rcases said' with _ | ⟨node', level', previous'⟩
  · exact congrArg (fun o => Except.ok ((), o)) h
  · cases hsaid
  · cases hsaid
  · obtain ⟨hnode, rfl, rfl⟩ := Entry.statement.inj hsaid
    have hfilename : r.cursor.filename = r'.cursor.filename := congrArg Outlook.filename h
    have hindent : r.indent = r'.indent := congrArg Outlook.indent h
    have houtline : r.outline.relocate Position.columnOnly =
      r'.outline.relocate Position.columnOnly := congrArg Outlook.outline h
    have hahead : r.cursor.upcoming = r'.cursor.upcoming := congrArg Outlook.ahead h
    obtain ⟨hadded, hgrown⟩ := Outline.insert_alike houtline hnode level previous
    rw [run_place_statement, run_place_statement]
    rcases hi : r.outline.insert node level previous with ⟨added, o⟩
    rcases hi' : r'.outline.insert node' level previous with ⟨added', o'⟩
    rw [hi, hi'] at hadded hgrown
    obtain rfl : added' = added := hadded
    rcases added' with (cause | _) | ⟨⟩
    · simp only [shown, Failure.unplaced, Cursor.error, hfilename]
    · rfl
    · simp only [shown, Reading.outlook, hfilename, hindent, hahead]
      rw [show o.relocate Position.columnOnly = o'.relocate Position.columnOnly from hgrown]

/-- Lines that start alike read alike, wherever they are. -/
theorem shown_nextEntry {filename : String} {line line₁ line₂ : List Char}
    {ahead : List (List Char)} (hp : r.cursor.peekLine = some line₁)
    (hp' : r'.cursor.peekLine = some line₂)
    (h : r.cursor.nextLine.2.joined.Starts filename line ahead)
    (h' : r'.cursor.nextLine.2.joined.Starts filename line ahead) (hindent : r'.indent = r.indent)
    (houtline : r'.outline = r.outline) :
    shown (Option.map (Entry.relocate Position.columnOnly)) ((nextEntry g).run r) =
      shown (Option.map (Entry.relocate Position.columnOnly)) ((nextEntry g).run r') := by
  rcases hcheck : r.indent.check (Pattern.run Text.isIndent r.cursor.nextLine.2.joined.line)
    r.outline.last.isNone with ⟨level, t⟩
  -- Both readings have the same lines ahead, so nothing that a block may take is lost.
  have hsame : (sameColumns.knowing t t r.outline r'.outline).SameBlocks :=
    ⟨fun _ => rfl, fun _ hline => nomatch hline⟩
  have hchecks : ChecksAlike False r r'
      (Pattern.run Text.isIndent r.cursor.nextLine.2.joined.line) t t :=
    ⟨level, level, hcheck, by rw [hindent, houtline, hcheck], Or.inl rfl⟩
  rcases outcomes_entered (g := g) hp hp' (together_sameColumns h h') h.column (fun _ => hchecks)
    (fun hlossy => hlossy.elim (fun hextra => hextra rfl) fun hdiff => hdiff hsame) with
    ⟨_, _, _, _, _, _, hdiff⟩ | houtcomes
  · exact absurd hsame hdiff
  generalize (nextEntry g).run r = x at houtcomes ⊢
  generalize (nextEntry g).run r' = x' at houtcomes ⊢
  rcases x with ⟨e | said, s⟩ <;> rcases x' with ⟨e' | said', s'⟩
  · rcases houtcomes with hfalse | ⟨⟨se, se', rfl, rfl, hcause, hfilename, -⟩, -⟩
    · exact hfalse.elim
    · simp only [shown, Failure.unplaced, hcause, hfilename]
  · exact False.elim houtcomes
  · exact False.elim houtcomes
  · obtain ⟨e, e', rfl, rfl, hahead, ho, ho', hsays⟩ := houtcomes
    have hupcoming : s'.cursor.upcoming = s.cursor.upcoming :=
      hahead.upcoming.trans (List.append_nil _)
    obtain ⟨hentry, hindents⟩ := hsays.same hindent
    simp only [shown, Option.map, Reading.outlook, hentry, hindents, ho, ho', houtline,
      hupcoming, hahead.filename]

/-- A joined line with the lines it goes on over reads as what they say reads on one line, whatever
was read before and whatever follows. -/
theorem shown_next_of_group {first : List Char} {others following : List (List Char)}
    (hgroup : Text.Group first others following)
    (hplain : Text.isMultiline (Text.joinedText first others) = false) {c : Cursor}
    (hr : r.cursor.upcoming = first :: (others ++ following))
    (hc : c.upcoming = Text.joinedText first others :: following)
    (hfilename : c.filename = r.cursor.filename) :
    shown (Option.map (Entry.relocate Position.columnOnly)) ((nextEntry g).run r) =
        shown (Option.map (Entry.relocate Position.columnOnly))
          ((nextEntry g).run { r with cursor := c }) ∧
      shown id ((nextStatement g).run r) =
        shown id ((nextStatement g).run { r with cursor := c }) := by
  have hstarts := Cursor.starts_joined hgroup hr
  have hstarts' := Cursor.starts_of_plain hc hplain
  rw [hfilename] at hstarts'
  let q : Reading := { r with cursor := c }
  have hq : q.cursor.peekLine = some (Text.joinedText first others) :=
    Cursor.peekLine_of_upcoming hc
  have hentry := shown_nextEntry (g := g) (Cursor.peekLine_of_upcoming hr) hq hstarts hstarts' rfl rfl
  refine ⟨hentry, shown_bind hentry fun said said' s s' hsaid hs => ?_⟩
  rcases said with _ | said <;> rcases said' with _ | said'
  · exact congrArg (fun o => Except.ok (_, o)) hs
  · cases hsaid
  · cases hsaid
  · have hplace := shown_place (Option.some.inj hsaid) hs
    exact shown_bind hplace fun _ _ _ _ _ ho => congrArg (fun o => Except.ok (_, o)) ho

/-- A tag with its text two lines below it and a blank line between them, and on one line. -/
theorem shown_next_of_group_tag :
    shown (Option.map (Entry.relocate Position.columnOnly)) ((nextEntry (.standard .haml)).run
        (.opening (.standard .haml) "%p |\n \n\ta \t |\n= b" "t" 1)) =
      shown (Option.map (Entry.relocate Position.columnOnly)) ((nextEntry (.standard .haml)).run
        (.opening (.standard .haml) "%p a\n= b" "t" 1)) ∧
    shown id ((nextStatement (.standard .haml)).run
        (.opening (.standard .haml) "%p |\n \n\ta \t |\n= b" "t" 1)) =
      shown id ((nextStatement (.standard .haml)).run
        (.opening (.standard .haml) "%p a\n= b" "t" 1)) ∧
    ((nextStatement (.standard .haml)).run
      (.opening (.standard .haml) "%p a\n= b" "t" 1)).1.toOption.isSome := by
  have hgroup : Text.Group "%p |".toList [" ".toList, "\ta \t |".toList] ["= b".toList] :=
    ⟨by decide +kernel, by decide +kernel, by decide +kernel⟩
  obtain ⟨hentry, hstatement⟩ := shown_next_of_group (g := .standard .haml)
    (r := .opening (.standard .haml) "%p |\n \n\ta \t |\n= b" "t" 1) hgroup (by decide +kernel)
    (c := (Reading.opening (.standard .haml) "%p a\n= b" "t" 1).cursor) (by decide +kernel)
    (by decide +kernel) rfl
  exact ⟨hentry, hstatement, by decide +kernel⟩

end Production

end TemplateTree
