import TemplateTree.Text.Blank

/-!
# Patterns

A pattern reads the start of the rest of a line. A match is a number of characters and the texts of
the groups of the pattern; a group that took no part has none. Every part of a pattern takes as much
as it can and gives nothing back.
-/

set_option autoImplicit false

namespace TemplateTree

structure Match where
  length : Nat
  groups : List (Option (List Char))
  deriving DecidableEq, Repr

namespace Match

def group (m : Match) (i : Nat) : Option (List Char) := (m.groups[i]?).join

/-- The text of a group, empty when it took no part. -/
def groupText (m : Match) (i : Nat) : List Char := (m.group i).getD []

def plain (length : Nat) : Match := ⟨length, []⟩

end Match

abbrev Pattern := List Char → Option Match

namespace Pattern

open Text

def run (p : Char → Bool) (cs : List Char) : List Char := cs.takeWhile p

def runLength (p : Char → Bool) (cs : List Char) : Nat := (run p cs).length

theorem take_runLength (p : Char → Bool) (cs : List Char) :
    cs.take (runLength p cs) = cs.takeWhile p :=
  (List.prefix_iff_eq_take.mp (List.takeWhile_prefix _)).symm

theorem drop_runLength (p : Char → Bool) (cs : List Char) :
    cs.drop (runLength p cs) = cs.dropWhile p := by
  have hparts := List.take_append_drop (runLength p cs) cs
  rw [take_runLength] at hparts
  exact List.append_cancel_left (hparts.trans List.takeWhile_append_dropWhile.symm)

theorem runLength_add_length (p : Char → Bool) (cs : List Char) :
    runLength p cs + (cs.dropWhile p).length = cs.length := by
  rw [runLength, run, ← List.length_append, List.takeWhile_append_dropWhile]

def many (p : Char → Bool) : Pattern := fun cs => some (.plain (runLength p cs))

def some1 (p : Char → Bool) : Pattern := fun cs =>
  match runLength p cs with
  | 0 => none
  | n + 1 => some (.plain (n + 1))

def satisfy (p : Char → Bool) : Pattern
  | c :: _ => if p c then some (.plain 1) else none
  | [] => none

/-- One character that satisfies `p`, or nothing. -/
def atMostOne (p : Char → Bool) : Pattern
  | c :: _ => some (.plain (if p c then 1 else 0))
  | [] => some (.plain 0)

def char (c : Char) : Pattern := satisfy (· == c)

def word (w : List Char) : Pattern := fun cs =>
  if w.isPrefixOf cs then some (.plain w.length) else none

/-- Nothing, and groups that took no part. -/
def absent (groups : Nat) : Pattern := fun _ => some ⟨0, List.replicate groups none⟩

/-- One pattern after another; the groups of the first come first. -/
def andThen (p q : Pattern) : Pattern := fun cs =>
  match p cs with
  | none => none
  | some m =>
    match q (cs.drop m.length) with
    | none => none
    | some m' => some ⟨m.length + m'.length, m.groups ++ m'.groups⟩

def orElse (p q : Pattern) : Pattern := fun cs =>
  match p cs with
  | some m => some m
  | none => q cs

/-- The pattern with its whole text as a group before its own. -/
def captured (p : Pattern) : Pattern := fun cs =>
  (p cs).map fun m => ⟨m.length, some (cs.take m.length) :: m.groups⟩

/-- The pattern as a condition on what follows; it reads nothing. -/
def ahead (p : Pattern) : Pattern := fun cs => (p cs).map fun m => ⟨0, m.groups⟩

/-- Nothing, where the pattern does not match. -/
def notAhead (p : Pattern) : Pattern := fun cs =>
  match p cs with
  | some _ => none
  | none => some (.plain 0)

/-- The end of the text, or the place before a line feed that ends it. -/
def atEnd : Pattern
  | [] | ['\n'] => some (.plain 0)
  | _ => none

def blanks : Pattern := many isBlank

def sequence : List Pattern → Pattern
  | [] => absent 0
  | [p] => p
  | p :: rest => p.andThen (sequence rest)

end Pattern

end TemplateTree
