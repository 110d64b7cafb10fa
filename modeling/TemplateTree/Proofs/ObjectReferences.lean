import TemplateTree.Proofs.Markers
import TemplateTree.Proofs.Scans.Expressions
import TemplateTree.Proofs.Written.Passing

/-!
# Object references

What may stand in the square brackets of a tag: any number of expressions, with commas between them
and perhaps one behind the last. The first two are the object and its qualifier, others are read and
dropped. So the brackets take more than an object and a qualifier.
-/

set_option autoImplicit false

namespace TemplateTree

/-- What is left behind a character with blanks around it, when a text starts so. -/
def Text.behind (c : Char) (cs : List Char) : Option (List Char) :=
  match cs.dropWhile isBlank with
  | [] => none
  | d :: rest => if d = c then some (rest.dropWhile isBlank) else none

namespace Text
variable {c : Char} {cs rest : List Char}

theorem behind_spec (h : behind c cs = some rest) :
    rest <:+ cs ∧ rest.length < cs.length ∧ Starts (isBlank · = false) rest := by
  unfold behind at h
  have hsuffix := List.dropWhile_suffix (l := cs) isBlank
  split at h
  · cases h
  · rename_i d others heq
    rw [heq] at hsuffix
    split at h
    · obtain rfl := Option.some.inj h
      have hshort := (List.dropWhile_suffix (l := others) isBlank).length_le
      have hlong := hsuffix.length_le
      rw [List.length_cons] at hlong
      exact ⟨(List.dropWhile_suffix _).trans ((List.suffix_cons d others).trans hsuffix),
        by omega, starts_dropWhile _ _⟩
    · cases h

/-- Only one character can stand there. -/
theorem behind_eq_none_of_behind {d : Char} (h : behind c cs = some rest) (hne : c ≠ d) :
    behind d cs = none := by
  unfold behind at h ⊢
  split at h
  · cases h
  · split at h
    · rename_i hc
      subst hc
      exact if_neg hne
    · cases h

/-- A character with blanks around it is read up to what it leaves. -/
theorem sequence_char_eq (c : Char) (cs : List Char) :
    Pattern.sequence [.blanks, .char c, .blanks] cs =
      (behind c cs).map fun rest => .plain (cs.length - rest.length) := by
  have hcount := Pattern.runLength_add_length isBlank cs
  unfold behind
  simp only [Pattern.sequence, Pattern.andThen, Pattern.blanks, Pattern.many, Match.plain,
    Pattern.drop_runLength]
  cases hd : cs.dropWhile isBlank with
  | nil => rfl
  | cons d rest =>
    have hrest := Pattern.runLength_add_length isBlank rest
    rw [hd, List.length_cons] at hcount
    simp only [Pattern.char, Pattern.satisfy, beq_iff_eq]
    by_cases hc : d = c
    · simp only [hc, if_true, Match.plain, List.drop_one, List.tail_cons, List.append_nil,
        Option.map_some]
      congr 2
      omega
    · simp only [if_neg hc, Option.map_none]

end Text

namespace Reading

/-- The reading where `rest` is left of its line. -/
def upTo (rest : List Char) (r : Reading) : Reading :=
  r.skip (r.cursor.rest.length - rest.length)

section UpTo
variable {r : Reading} {rest mid : List Char} (h : r.cursor.Inside)
include h

theorem inside_upTo (rest : List Char) : (r.upTo rest).cursor.Inside := inside_skip h _

theorem rest_upTo (hrest : rest <:+ r.cursor.rest) : (r.upTo rest).cursor.rest = rest := by
  rw [upTo, rest_skip h]
  exact (List.suffix_iff_eq_drop.mp hrest).symm

theorem upTo_upTo (hmid : mid <:+ r.cursor.rest) (hrest : rest <:+ mid) :
    (r.upTo mid).upTo rest = r.upTo rest := by
  have hlong := hmid.length_le
  have hshort := hrest.length_le
  rw [upTo, rest_upTo h hmid, upTo, skip_skip, upTo]
  congr 1
  omega

omit h in
theorem skip_eq_upTo {n : Nat} (hn : n ≤ r.cursor.rest.length) :
    r.skip n = r.upTo (r.cursor.rest.drop n) := by
  rw [upTo, List.length_drop, Nat.sub_sub_self hn]

end UpTo

end Reading

/-- No expression starts at a closing bracket. -/
theorem Scan.expression_closer {delimiters rest : List Char} {c : Char} (h : isCloser c) :
    expression delimiters (c :: rest) = none := by
  rcases eq_of_isCloser h with rfl | rfl | rfl <;> rfl

namespace ObjectReference
open Text

/-- The brackets as they are written for an object: nothing in them, or an expression, or two
expressions with a comma between. Behind them stands `after`. -/
inductive Form : List (List Char) → List Char → List Char → Prop where
  | empty {cs after : List Char} (close : behind ']' cs = some after) : Form [] cs after
  | object {cs after : List Char} {n : Nat} (object : Scan.expression [',', ']'] cs = some n)
      (close : behind ']' (cs.drop n) = some after) : Form [cs.take n] cs after
  | qualified {cs rest after : List Char} {n m : Nat}
      (object : Scan.expression [',', ']'] cs = some n) (comma : behind ',' (cs.drop n) = some rest)
      (qualifier : Scan.expression [',', ']'] rest = some m)
      (close : behind ']' (rest.drop m) = some after) : Form [cs.take n, rest.take m] cs after

/-- What the brackets take: expressions, each but the last with a comma behind it, and so many
commas. -/
inductive Parts : List (List Char) → Nat → List Char → List Char → Prop where
  | close {cs after : List Char} (close : behind ']' cs = some after) : Parts [] 0 cs after
  | last {cs after : List Char} {n : Nat} (part : Scan.expression [',', ']'] cs = some n)
      (close : behind ']' (cs.drop n) = some after) : Parts [cs.take n] 0 cs after
  | more {cs rest after : List Char} {n commas : Nat} {parts : List (List Char)}
      (part : Scan.expression [',', ']'] cs = some n) (comma : behind ',' (cs.drop n) = some rest)
      (others : Parts parts commas rest after) : Parts (cs.take n :: parts) (commas + 1) cs after

variable {cs after : List Char} {parts : List (List Char)} {commas : Nat}

theorem Parts.suffix (h : Parts parts commas cs after) : after <:+ cs := by
  induction h with
  | close close => exact (behind_spec close).1
  | last part close => exact (behind_spec close).1.trans (List.drop_suffix _ _)
  | more part comma others ih =>
    exact ih.trans ((behind_spec comma).1.trans (List.drop_suffix _ _))

/-- The form for an object and a qualifier has up to two expressions, and no comma too many. -/
theorem form_iff : Form parts cs after ↔ parts.length ≤ 2 ∧ Parts parts (parts.length - 1) cs after := by
  constructor
  · intro h
    cases h with
    | empty close => exact ⟨Nat.zero_le _, .close close⟩
    | object object close => exact ⟨Nat.le_succ 1, .last object close⟩
    | qualified object comma qualifier close =>
      exact ⟨Nat.le_refl _, .more object comma (.last qualifier close)⟩
  · rintro ⟨hlength, hparts⟩
    generalize hcommas : parts.length - 1 = commas at hparts
    cases hparts with
    | close close => exact .empty close
    | last part close => exact .object part close
    | more part comma others =>
      cases others with
      | close close => simp at hcommas
      | last qualifier close => exact .qualified part comma qualifier close
      | more second comma' others =>
        cases others with
        | close => simp at hcommas
        | last => simp at hlength
        | more => simp at hlength

/-- What expressions come to as the attributes of a tag: the class and the id of the first one, with
the second one as the qualifier. -/
inductive Refers (p : Position) : List (List Char) → List Node → Prop where
  | empty : Refers p [] []
  | object {object : List Char} {q : Position} : Refers p [object]
      [.tagAttribute (.ofText "class".toList p)
          (some (.objectRefClass (.ofExpression object q) none p)) p,
        .tagAttribute (.ofText "id".toList p)
          (some (.objectRefId (.ofExpression object q) none p)) p]
  | qualified {object qualifier : List Char} {q q' : Position} {others : List (List Char)} :
      Refers p (object :: qualifier :: others)
        [.tagAttribute (.ofText "class".toList p)
            (some (.objectRefClass (.ofExpression object q) (some (.ofExpression qualifier q')) p)) p,
          .tagAttribute (.ofText "id".toList p)
            (some (.objectRefId (.ofExpression object q) (some (.ofExpression qualifier q')) p)) p]

/-- Expressions, as nodes. -/
def AsNodes : List (List Char) → List Node → Prop :=
  List.Forall₂ fun part node => ∃ q, node = .ofExpression part q

theorem refers_of_asNodes {p : Position} {nodes : List Node} (h : AsNodes parts nodes) :
    Refers p parts (Production.objectAttributes p nodes) := by
  cases h with
  | nil => exact .empty
  | cons hobject hothers =>
    obtain ⟨q, rfl⟩ := hobject
    cases hothers with
    | nil => exact .object
    | cons hqualifier _ =>
      obtain ⟨q', rfl⟩ := hqualifier
      exact .qualified

end ObjectReference

namespace Production
open Text ObjectReference
variable {r : Reading} {found : List Node}

theorem run_eat_char (h : r.cursor.Inside) (c : Char) :
    (eat (.sequence [.blanks, .char c, .blanks])).run r =
      match behind c r.cursor.rest with
      | none => (.ok false, r)
      | some rest => (.ok true, r.upTo rest) := by
  rw [run_eat h, sequence_char_eq]
  cases behind c r.cursor.rest <;> rfl

theorem run_expression_refused (h : r.cursor.Inside) {delimiters : List Char}
    (hscan : Scan.expression delimiters r.cursor.rest = none) :
    (expression delimiters).run r =
      (.error (.refused (r.cursor.error (.unexpected r.cursor.rest.head? .expression))), r) := by
  unfold expression
  rw [run_cursor_bind, Cursor.expressionAt_eq h, hscan]
  exact run_expected h .expression

/-- One step in the brackets: they are closed, or an expression follows, and behind it they are
closed or there is a comma. -/
theorem run_nextObjectPart (h : r.cursor.Inside) (found : List Node) :
    (nextObjectPart found).run r =
      match behind ']' r.cursor.rest, Scan.expression [',', ']'] r.cursor.rest with
      | some after, _ => (.ok (.done found), r.upTo after)
      | none, none =>
        (.error (.refused (r.cursor.error (.unexpected r.cursor.rest.head? .expression))), r)
      | none, some n =>
        let found := found ++ [.ofExpression (r.cursor.rest.take n) r.cursor.position]
        match behind ']' (r.cursor.rest.drop n), behind ',' (r.cursor.rest.drop n) with
        | some after, _ => (.ok (.done found), r.upTo after)
        | none, some rest => (.ok (.yield found), r.upTo rest)
        | none, none => (.error (.refused ((r.skip n).cursor.error
            (.unexpected (r.cursor.rest.drop n).head? .objectSeparator))), r.skip n) := by
  have hclose : Pattern.objectClose = .sequence [.blanks, .char ']', .blanks] := rfl
  have hcomma : Pattern.objectSeparator = .sequence [.blanks, .char ',', .blanks] := rfl
  unfold nextObjectPart
  rw [hclose, hcomma, run_bind, run_eat_char h]
  cases hb : behind ']' r.cursor.rest with
  | some after => rfl
  | none =>
    dsimp only
    rw [if_neg Bool.false_ne_true, run_bind]
    cases hscan : Scan.expression [',', ']'] r.cursor.rest with
    | none => rw [run_expression_refused h hscan]
    | some n =>
      have hskip := Reading.skip_eq_upTo (Scan.le_length_of_expression hscan)
      have hin : (r.skip n).cursor.Inside := Reading.inside_skip h n
      have hupTo : ∀ {c : Char} {rest : List Char}, behind c (r.cursor.rest.drop n) = some rest →
          (r.skip n).upTo rest = r.upTo rest := by
        intro c rest hrest
        rw [hskip]
        exact Reading.upTo_upTo h (List.drop_suffix _ _) (behind_spec hrest).1
      rw [run_expression h hscan]
      dsimp only
      rw [run_bind, run_eat_char hin, Reading.rest_skip h]
      cases hb' : behind ']' (r.cursor.rest.drop n) with
      | some after =>
        dsimp only
        rw [hupTo hb']
        rfl
      | none =>
        dsimp only
        rw [if_neg Bool.false_ne_true, run_bind, run_eat_char hin, Reading.rest_skip h]
        cases hb'' : behind ',' (r.cursor.rest.drop n) with
        | some rest =>
          dsimp only
          rw [hupTo hb'']
          rfl
        | none =>
          dsimp only
          rw [← Reading.rest_skip h]
          exact run_expected_bind hin .objectSeparator

section Loop
variable {after : List Char} {parts : List (List Char)} {commas : Nat}

theorem behind_closer_eq_none {cs : List Char} {n : Nat}
    (hstarts : Starts (isBlank · = false) cs)
    (hscan : Scan.expression [',', ']'] cs = some n) : behind ']' cs = none := by
  unfold behind
  rw [hstarts.dropWhile_eq]
  cases cs with
  | nil => rfl
  | cons c rest =>
    refine if_neg fun hc => ?_
    rw [hc, Scan.expression_closer (by decide)] at hscan
    cases hscan

theorem remaining_upTo_lt {rest : List Char} (h : r.cursor.Inside)
    (hshort : rest.length < r.cursor.rest.length) :
    (r.upTo rest).cursor.remaining < r.cursor.remaining :=
  Cursor.remaining_skip_lt h (Nat.sub_pos_of_lt hshort)
    (List.ne_nil_of_length_pos (Nat.zero_lt_of_lt hshort))

theorem behind_drop {cs rest : List Char} {n : Nat} {c : Char} (h : behind c (cs.drop n) = some rest) :
    rest <:+ cs ∧ rest.length < cs.length ∧ Starts (isBlank · = false) rest := by
  obtain ⟨hsuffix, hshort, hstarts⟩ := behind_spec h
  have hdrop := List.drop_suffix n cs
  exact ⟨hsuffix.trans hdrop, Nat.lt_of_lt_of_le hshort hdrop.length_le, hstarts⟩

/-- What the brackets take is read, each expression as a node. -/
theorem run_objectParts (hparts : Parts parts commas r.cursor.rest after) (h : r.cursor.Inside)
    (hstarts : Starts (isBlank · = false) r.cursor.rest) (found : List Node) :
    ∃ nodes, (repeatWhile nextObjectPart found).run r = (.ok (found ++ nodes), r.upTo after) ∧
      AsNodes parts nodes := by
  generalize hcs : r.cursor.rest = cs at hparts
  induction hparts generalizing r found with
  | close close =>
    subst hcs
    refine ⟨[], run_repeatWhile_done ?_, .nil⟩
    rw [run_nextObjectPart h, close, List.append_nil]
  | @last _ _ n part close =>
    subst hcs
    refine ⟨[.ofExpression (r.cursor.rest.take n) r.cursor.position], run_repeatWhile_done ?_,
      .cons ⟨_, rfl⟩ .nil⟩
    simp only [run_nextObjectPart h, behind_closer_eq_none hstarts part, part, close]
  | @more _ rest _ n commas _ part comma others ih =>
    subst hcs
    obtain ⟨hsuffix, hshort, hrest⟩ := behind_drop comma
    have hin := Reading.inside_upTo h rest
    have hupTo := Reading.rest_upTo h hsuffix
    have hless := remaining_upTo_lt h hshort
    -- a comma is no bracket, so the loop goes on
    have hopen : behind ']' (r.cursor.rest.drop n) = none :=
      behind_eq_none_of_behind comma (by decide)
    obtain ⟨nodes, hrun, hnodes⟩ := ih hin (by rwa [hupTo])
      (found ++ [.ofExpression (r.cursor.rest.take n) r.cursor.position]) hupTo
    refine ⟨.ofExpression (r.cursor.rest.take n) r.cursor.position :: nodes, ?_,
      .cons ⟨_, rfl⟩ hnodes⟩
    rw [List.append_assoc, List.singleton_append, Reading.upTo_upTo h hsuffix others.suffix] at hrun
    rw [← hrun]
    refine run_repeatWhile_yield ?_ hless
    simp only [run_nextObjectPart h, behind_closer_eq_none hstarts part, part, hopen, comma]

/-- The brackets take nothing else. -/
theorem parts_of_run {nodes : List Node} {r' : Reading} (h : r.cursor.Inside)
    (hrun : (repeatWhile nextObjectPart found).run r = (.ok nodes, r')) :
    ∃ parts commas after, Parts parts commas r.cursor.rest after := by
  induction hn : r.cursor.rest.length using Nat.strongRecOn generalizing r found with
  | ind length ih =>
    have hstep := run_nextObjectPart h found
    cases hb : behind ']' r.cursor.rest with
    | some after => exact ⟨[], 0, after, .close hb⟩
    | none =>
      cases hscan : Scan.expression [',', ']'] r.cursor.rest with
      | none =>
        rw [hb, hscan] at hstep
        rw [run_repeatWhile_error hstep] at hrun
        cases hrun
      | some n =>
        cases hb' : behind ']' (r.cursor.rest.drop n) with
        | some after => exact ⟨_, 0, after, .last hscan hb'⟩
        | none =>
          cases hb'' : behind ',' (r.cursor.rest.drop n) with
          | none =>
            simp only [hb, hscan, hb', hb''] at hstep
            rw [run_repeatWhile_error hstep] at hrun
            cases hrun
          | some rest =>
            simp only [hb, hscan, hb', hb''] at hstep
            obtain ⟨hsuffix, hshort, -⟩ := behind_drop hb''
            have hless := remaining_upTo_lt h hshort
            rw [run_repeatWhile_yield hstep hless] at hrun
            have hin := Reading.inside_upTo h rest
            have hupTo := Reading.rest_upTo h hsuffix
            obtain ⟨parts, commas, after, hparts⟩ :=
              ih rest.length (hn ▸ hshort) hin hrun (by rw [hupTo])
            rw [hupTo] at hparts
            exact ⟨_, _, after, .more hscan hb'' hparts⟩

end Loop

theorem opening_eq (c : Char) (rest : List Char) :
    Pattern.sequence [.char c, .blanks] (c :: rest) =
      some (.plain (1 + Pattern.runLength isBlank rest)) := by
  simp [Pattern.sequence, Pattern.andThen, Pattern.char, Pattern.satisfy, Pattern.blanks,
    Pattern.many, Match.plain]

section Brackets
variable {opened : List Char} (h : r.cursor.Inside) (hrest : r.cursor.rest = '[' :: opened)
include h hrest

omit h in
theorem opened_suffix : trimLeft opened <:+ r.cursor.rest := by
  rw [hrest]
  exact (List.dropWhile_suffix _).trans (List.suffix_cons _ _)

theorem run_objectReference : objectReference.run r =
    (do return objectAttributes r.cursor.position (← objectParts) : Production (List Node)).run
      (r.upTo (trimLeft opened)) := by
  have hskip : r.skip (1 + Pattern.runLength isBlank opened) = r.upTo (trimLeft opened) := by
    have hcount := Pattern.runLength_add_length isBlank opened
    rw [Reading.upTo, hrest, List.length_cons, trimLeft]
    congr 1
    omega
  unfold objectReference
  rw [run_cursor_bind, Cursor.inLine_eq h, run_bind, run_eat h, hrest, Pattern.objectOpen,
    opening_eq]
  dsimp only [Match.plain]
  rw [hskip]
  rfl

theorem objectReference_of_parts {after : List Char} {parts : List (List Char)} {commas : Nat}
    (hparts : Parts parts commas (trimLeft opened) after) :
    ∃ nodes, objectReference.run r = (.ok nodes, r.upTo after) ∧ Refers r.cursor.position parts nodes := by
  have hsuffix := opened_suffix hrest
  have hin := Reading.inside_upTo h (trimLeft opened)
  have hupTo := Reading.rest_upTo h hsuffix
  obtain ⟨nodes, hnodes, hasNodes⟩ := run_objectParts (hupTo.symm ▸ hparts) hin
    (hupTo.symm ▸ starts_dropWhile isBlank opened) []
  rw [Reading.upTo_upTo h hsuffix hparts.suffix] at hnodes
  refine ⟨objectAttributes r.cursor.position nodes, ?_, refers_of_asNodes hasNodes⟩
  rw [run_objectReference h hrest, run_bind, objectParts, hnodes]
  rfl

theorem parts_of_objectReference {nodes : List Node} {r' : Reading}
    (hrun : objectReference.run r = (.ok nodes, r')) :
    ∃ parts commas after, Parts parts commas (trimLeft opened) after := by
  have hin := Reading.inside_upTo h (trimLeft opened)
  have hupTo := Reading.rest_upTo h (opened_suffix hrest)
  rw [run_objectReference h hrest, run_bind, objectParts] at hrun
  rcases hparts : (repeatWhile nextObjectPart []).run (r.upTo (trimLeft opened)) with ⟨e | ns, r₁⟩
  · rw [hparts] at hrun
    cases hrun
  · rw [← hupTo]
    exact parts_of_run hin hparts

/-- The brackets take any number of expressions with commas between them, and a comma behind the
last one. That is an object, perhaps with a qualifier, as long as there are at most two of them and
no comma too many. Others than the first two are dropped. -/
theorem objectReference_iff :
    ((∃ nodes r', objectReference.run r = (.ok nodes, r')) ↔
      ∃ parts commas after, Parts parts commas (trimLeft opened) after) ∧
    (∀ parts commas after, Parts parts commas (trimLeft opened) after →
      ∃ nodes, objectReference.run r = (.ok nodes, r.upTo after) ∧
        Refers r.cursor.position parts nodes) ∧
    ∀ parts after, Form parts (trimLeft opened) after ↔
      parts.length ≤ 2 ∧ Parts parts (parts.length - 1) (trimLeft opened) after := by
  refine ⟨⟨?_, ?_⟩, fun _ _ _ => objectReference_of_parts h hrest, fun _ _ => form_iff⟩
  · rintro ⟨nodes, r', hrun⟩
    exact parts_of_objectReference h hrest hrun
  · rintro ⟨parts, commas, after, hparts⟩
    obtain ⟨nodes, hrun, -⟩ := objectReference_of_parts h hrest hparts
    exact ⟨nodes, _, hrun⟩

end Brackets

theorem objectReference_iff_qualified : ∃ nodes,
    objectReference.run (.onFirstLine "[a, b ]c") =
        (.ok nodes, (Reading.onFirstLine "[a, b ]c").upTo ['c']) ∧
      Refers (Reading.onFirstLine "[a, b ]c").cursor.position ["a".toList, "b".toList] nodes := by
  have hstands : (Reading.onFirstLine "[a, b ]c").cursor.StandsBefore "[a, b ]c".toList :=
    Reading.standsBefore_onFirstLine (by decide)
  have hlast : Parts ["b".toList] 0 "b ]c".toList ['c'] :=
    @Parts.last "b ]c".toList ['c'] 1 rfl rfl
  have hparts : Parts ["a".toList, "b".toList] 1 "a, b ]c".toList ['c'] :=
    @Parts.more "a, b ]c".toList _ _ 1 _ _ rfl rfl hlast
  have hrest : (Reading.onFirstLine "[a, b ]c").cursor.rest = '[' :: "a, b ]c".toList := by decide
  exact (objectReference_iff hstands.inside hrest).2.1 _ _ _ hparts

/-- Three expressions are taken, and no form for an object has so many. -/
theorem objectReference_drops_expression : ¬ ∀ {r : Reading} {opened : List Char},
    r.cursor.Inside → r.cursor.rest = '[' :: opened →
      ((∃ nodes r', objectReference.run r = (.ok nodes, r')) ↔
        ∃ parts after, Form parts (trimLeft opened) after) := by
  intro hall
  have hstands : (Reading.onFirstLine "[a, b, c]").cursor.StandsBefore "[a, b, c]".toList :=
    Reading.standsBefore_onFirstLine (by decide)
  have hrest : (Reading.onFirstLine "[a, b, c]").cursor.rest = '[' :: "a, b, c]".toList := by decide
  have hlast : Parts ["c".toList] 0 "c]".toList [] := @Parts.last "c]".toList [] 1 rfl rfl
  have hmore : Parts ["b".toList, "c".toList] 1 "b, c]".toList [] :=
    @Parts.more "b, c]".toList _ _ 1 _ _ rfl rfl hlast
  have hparts : Parts ["a".toList, "b".toList, "c".toList] 2 "a, b, c]".toList [] :=
    @Parts.more "a, b, c]".toList _ _ 1 _ _ rfl rfl hmore
  obtain ⟨nodes, hrun, -⟩ := objectReference_of_parts hstands.inside hrest hparts
  obtain ⟨parts, after, hform⟩ := (hall hstands.inside hrest).mp ⟨nodes, _, hrun⟩
  have htrim : trimLeft "a, b, c]".toList = "a, b, c]".toList := by decide
  rw [htrim] at hform
  have hobject : Scan.expression [',', ']'] "a, b, c]".toList = some 1 := rfl
  have hcomma : behind ',' ("a, b, c]".toList.drop 1) = some "b, c]".toList := rfl
  have hqualifier : Scan.expression [',', ']'] "b, c]".toList = some 1 := rfl
  cases hform with
  | empty close => exact nomatch close
  | object object close =>
    obtain rfl := Option.some.inj (hobject.symm.trans object)
    exact nomatch close
  | qualified object comma qualifier close =>
    obtain rfl := Option.some.inj (hobject.symm.trans object)
    obtain rfl := Option.some.inj (hcomma.symm.trans comma)
    obtain rfl := Option.some.inj (hqualifier.symm.trans qualifier)
    exact nomatch close

end Production

end TemplateTree
