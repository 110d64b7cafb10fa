import TemplateTree.Proofs.SourceLines

/-!
# Positions

Every node of a template that is read lies on a line of the source. What the tree holds of the
source as it is, code of the host language and raw lines, is found there at its position, unless
lines of the source are joined.
-/

set_option autoImplicit false

namespace TemplateTree

namespace Node
variable {source : List Char} {firstLine : Int} {n : Node}

/-- The root lies at the start of the source, and every other node on one of its lines. -/
def Lies (source : List Char) (firstLine : Int) (n : Node) : Prop :=
  (n.kind = .root ∧ n.position = some (.of firstLine 1 0)) ∨
    ∃ p k, n.position = some p ∧ p.On source firstLine k

theorem position_withChildren (cs : List Node) (n : Node) :
    (n.withChildren cs).position = n.position := by
  cases n <;> rfl

theorem Lies.withChildren (h : n.Lies source firstLine) (cs : List Node) :
    (n.withChildren cs).Lies source firstLine := by
  unfold Lies
  rwa [kind_withChildren, position_withChildren]

section Verbatim
variable {reads reads' : List Char → Position → Prop}

theorem Captured.imp (h : ∀ text p, reads text p → reads' text p) (hn : n.Captured reads) :
    n.Captured reads' := by
  cases n with
  | insert =>
    obtain ⟨s, q, after, hcontent, hq, hreads⟩ := hn
    exact ⟨s, q, after, hcontent, hq, h _ _ hreads⟩
  | tag => exact hn.elim
  | _ => exact trivial

theorem CapturedText.imp (h : ∀ text p, reads text p → reads' text p) (hn : n.CapturedText reads) :
    n.CapturedText reads' := by
  cases n with
  | text =>
    obtain ⟨s, q, after, hcontent, hq, hreads⟩ := hn
    exact ⟨s, q, after, hcontent, hq, h _ _ hreads⟩
  | tag => exact hn.elim
  | _ => exact trivial

theorem Marked.imp (h : ∀ text p, reads text p → reads' text p) (hn : n.Marked reads) :
    n.Marked reads' := by
  cases n with
  | insert =>
    obtain ⟨s, q, modifier, marker, blanks, hcontent, hq, hmodifier, hmarker, hblanks, hreads⟩ := hn
    exact ⟨s, q, modifier, marker, blanks, hcontent, hq, hmodifier, hmarker, hblanks, h _ _ hreads⟩
  | tag => exact hn.elim
  | _ => exact trivial

theorem Verbatim.imp (h : ∀ text p, reads text p → reads' text p) (hn : n.Verbatim reads) :
    n.Verbatim reads' := by
  cases n with
  | interpolatedString => exact fun m hm => (hn m hm).imp h
  | tagAttribute | objectRefClass | objectRefId =>
    exact ⟨hn.1.imp h, fun m hm => (hn.2 m hm).imp h⟩
  | tagAttributeList | tagAttributeInterpolation => exact Captured.imp h hn
  | statement => exact ⟨hn.1.imp h, hn.2.imp h⟩
  | comment => exact fun m hm => (hn m hm).imp h
  | tag => exact fun m hm => (hn m hm).imp h
  | _ => exact trivial

/-- What is nested in a node on lines of its own says nothing about the node. -/
theorem Verbatim.withChildren (haccepts : n.Accepts) (h : n.Verbatim reads) (cs : List Node) :
    (n.withChildren cs).Verbatim reads := by
  have hnest := haccepts.canNest
  cases n with
  | interpolatedString => cases hnest
  | _ => exact h

end Verbatim

end Node

open Node Production in
/-- In a template that can be read, every position names a line of the source and counts its columns
from where the line starts; only the root is at the start of a source that may be empty. Where no
lines are joined, the code of inserts in strings, attributes and object references, and the text of
raw lines and comments, stand in the source at their positions. The inserts of statements stand there
with modifier, marker and blanks before the code, which goes up to the end of the line. -/
theorem positions_of_readTemplate {g : Grammar} {source filename : String} {firstLine : Int}
    {root : Node} (h : (readTemplate g source filename firstLine).1 = .ok root) :
    root.Everywhere (Lies source.toList firstLine) ∧
      (Text.Unjoined source.toList →
        root.Everywhere (Verbatim (Position.Reads source.toList firstLine))) := by
  obtain ⟨es, r, _, hrun, _, rfl⟩ := exists_run_of_readTemplate h
  constructor
  · apply hrun.everywhere (fun m cs _ hm => hm.withChildren cs) (Or.inl ⟨rfl, rfl⟩)
    intro es r r' node level previous hset reads
    refine (hset.located reads).1.located.imp fun n hn => ?_
    obtain ⟨p, hp, k, _, hon⟩ := hn.lies
    exact Or.inr ⟨p, k, hp, hon⟩
  · intro hun
    apply hrun.everywhere (fun m cs haccepts hm => hm.withChildren haccepts cs) trivial
    intro es r r' node level previous hset reads
    refine (hset.located reads).1.located.imp fun n hn => ?_
    exact hn.verbatim.imp fun text p hreads => hreads hun

/-- Attributes that go on over a line break of two characters, an insert and the block of a filter. -/
theorem positions_of_readTemplate_page : ∃ root,
    (readTemplate (.standard .haml)
      "%a\x7b:b => c,\r\n  :d => \"e#\x7bf\x7d\"\x7d\n  &= g\r:h\n  i\n" "t" 1).1 = .ok root ∧
      root.Everywhere (Node.Lies
        "%a\x7b:b => c,\r\n  :d => \"e#\x7bf\x7d\"\x7d\n  &= g\r:h\n  i\n".toList 1) ∧
      root.Everywhere (Node.Verbatim (Position.Reads
        "%a\x7b:b => c,\r\n  :d => \"e#\x7bf\x7d\"\x7d\n  &= g\r:h\n  i\n".toList 1)) := by
  have heval : (readTemplate (.standard .haml)
      "%a\x7b:b => c,\r\n  :d => \"e#\x7bf\x7d\"\x7d\n  &= g\r:h\n  i\n" "t" 1).1.toOption.isSome := by
    decide +kernel
  rcases hread : (readTemplate (.standard .haml)
      "%a\x7b:b => c,\r\n  :d => \"e#\x7bf\x7d\"\x7d\n  &= g\r:h\n  i\n" "t" 1).1 with _ | root
  · rw [hread] at heval
    cases heval
  · obtain ⟨hlies, hverbatim⟩ := positions_of_readTemplate hread
    exact ⟨root, rfl, hlies, hverbatim (by unfold Text.Unjoined; decide +kernel)⟩

end TemplateTree
