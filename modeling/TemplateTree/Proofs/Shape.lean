import Mathlib.Data.List.Chain
import TemplateTree.Filter
import TemplateTree.Outline

/-!
# Rules for the nodes of a read template

`WellFormed` collects what every node of a template that was read keeps, and `HoldsRawLines` what
the blocks of filters and silent comments hold. Both look at one node with what is directly below
it; `Everywhere` carries them through a tree.

A node that takes one more nested statement keeps `WellFormed`, because the outline asks it first
whether it is open.
-/

set_option autoImplicit false

namespace TemplateTree

namespace Node

/-- A property of a node and of every node below it. -/
inductive Everywhere (P : Node → Prop) : Node → Prop where
  | intro {n : Node} (here : P n) (below : ∀ m ∈ n.subnodes, Everywhere P m) : Everywhere P n

namespace Everywhere
variable {P Q : Node → Prop} {n m : Node}

theorem here (h : Everywhere P n) : P n := by
  cases h with
  | intro here _ => exact here

theorem of_mem (h : Everywhere P n) (hm : m ∈ n.subnodes) : Everywhere P m := by
  cases h with
  | intro _ below => exact below m hm

theorem imp (h : Everywhere P n) (hpq : ∀ m, P m → Q m) : Everywhere Q n := by
  induction h with
  | intro here _ ih => exact .intro (hpq _ here) ih

/-- A node and all below it keep what holds in whole trees. -/
theorem deep (h : Everywhere P n) : Everywhere (Everywhere P) n := by
  induction h with
  | intro here below ih => exact .intro (.intro here below) ih

theorem leaf (here : P n) (hn : n.subnodes = []) : Everywhere P n :=
  .intro here (by simp [hn])

end Everywhere

/-- Nodes that a string may consist of: texts and inserts of text, a text after each text being
part of it, and nothing empty unless the string is. -/
structure StringParts (parts : List Node) : Prop where
  nonempty : parts ≠ []
  kinds : ∀ p ∈ parts, (∃ s q, p = .text (.str (.chars s)) q) ∨
    ∃ s e w q, p = .insert (.str (.chars s)) e w q
  apart : parts.IsChain fun a b => ¬ (a.kind = .text ∧ b.kind = .text)
  text_nonempty : ∀ q, .text (.str "") q ∈ parts → parts = [.text (.str "") q]
  insert_nonempty : ∀ e w q, .insert (.str "") e w q ∉ parts

/-- The nodes that the attributes of a tag are. -/
def IsAttribute : Node → Prop
  | tagAttribute .. | tagAttributeList .. => True
  | tagAttributeInterpolation value _ => value.kind = .insert
  | _ => False

/-- The rules that a node keeps with what is directly below it. -/
def WellFormed : Node → Prop
  | tag _ attributes flags content children _ =>
    (flags.isSelfClosing → content = none ∧ children = []) ∧ (content.isSome → children = []) ∧
      ∀ a ∈ attributes, a.IsAttribute
  | comment rendered condition content children _ =>
    (rendered.isTrue → content.isSome → children = []) ∧
      (condition.isNull = false → rendered.isTrue ∧ content = none)
  | statement content _ =>
    content.kind = .insert ∨ content.kind = .interpolatedString ∨ content.kind = .text
  | interpolatedString parts _ _ => StringParts parts
  | tagAttributeInterpolation value _ => value.kind = .insert
  | _ => True

def IsRawLine (n : Node) : Prop := ∃ s p q, n = .statement (.text (.str (.chars s)) p) q

/-- A line of a filter block; only where filters are interpolated it may be a string. -/
def IsFilterLine (interpolated : Bool) (n : Node) : Prop :=
  n.IsRawLine ∨ interpolated = true ∧ ∃ parts e p q, n = .statement (.interpolatedString parts e p) q

/-- Filters and silent comments, whose blocks are not read as statements. -/
def ownsRawLines : Node → Bool
  | filter .. => true
  | comment rendered .. => !rendered.isTrue
  | _ => false

/-- What stands below a filter or silent comment are the lines of its block. -/
def HoldsRawLines (interpolated : Bool) : Node → Prop
  | filter _ children _ => ∀ c ∈ children, c.IsFilterLine interpolated
  | comment rendered _ _ children _ => rendered.isTrue = false → ∀ c ∈ children, c.IsRawLine
  | _ => True

def Sound (interpolated : Bool) (n : Node) : Prop := n.WellFormed ∧ n.HoldsRawLines interpolated

def IsStatement (n : Node) : Prop :=
  n.kind = .tag ∨ n.kind = .filter ∨ n.kind = .comment ∨ n.kind = .run ∨ n.kind = .doctype ∨
    n.kind = .statement

section Children
variable {n : Node} {cs : List Node}

theorem children_withChildren (h : n.canNest) (cs : List Node) :
    (n.withChildren cs).children = cs := by
  cases n <;> first | rfl | simp [canNest, kind, Kind.canNest] at h

theorem children_subset_subnodes {m : Node} (hm : m ∈ n.children) : m ∈ n.subnodes := by
  cases n <;> simp_all [children, subnodes]

theorem mem_subnodes_withChildren {m : Node} (hm : m ∈ (n.withChildren cs).subnodes) :
    m ∈ cs ∨ m ∈ n.subnodes := by
  cases n <;> simp only [withChildren, subnodes, List.mem_append] at hm ⊢ <;> tauto

theorem refusal?_withChildren : Outline.refusal? (n.withChildren cs) = Outline.refusal? n := by
  cases n <;> rfl

end Children

/-- A node that the outline adds statements to. -/
theorem open_of_refusal? {n : Node} (h : Outline.refusal? n = none) :
    n.canNest ∧ (n.hasContent → n.kind.allowsNestingWithContent) ∧ n.isSelfClosing = false := by
  unfold Outline.refusal? at h
  split at h
  · exact absurd h (Option.some_ne_none _)
  rename_i hnest
  split at h
  · split at h <;> exact absurd h (Option.some_ne_none _)
  rename_i hcontent
  split at h
  · exact absurd h (Option.some_ne_none _)
  rename_i hself
  refine ⟨by simpa using hnest, ?_, by simpa using hself⟩
  intro hc
  simpa [hc] using hcontent

theorem WellFormed.withChildren {n : Node} (h : n.WellFormed) (hopen : Outline.refusal? n = none)
    (cs : List Node) : (n.withChildren cs).WellFormed := by
  obtain ⟨hnest, hcontent, hself⟩ := open_of_refusal? hopen
  cases n with
  | tag name attributes flags content children p =>
    have hc : content = none := by
      cases content with
      | none => rfl
      | some c => exact absurd (hcontent rfl) Bool.false_ne_true
    have hs : ¬ flags.isSelfClosing := by simpa [isSelfClosing, selfClosing?] using hself
    exact ⟨fun hf => absurd hf hs, fun hf => absurd hf (by simp [hc]), h.2.2⟩
  | comment rendered condition content children p =>
    have hc : content = none := by
      cases content with
      | none => rfl
      | some c => exact absurd (hcontent rfl) Bool.false_ne_true
    exact ⟨fun _ hf => absurd hf (by simp [hc]), h.2⟩
  | root | run | filter => trivial
  | _ => exact absurd hnest Bool.false_ne_true

/-- A node that holds no raw lines may be given other children. -/
theorem HoldsRawLines.withChildren {n : Node} {interpolated : Bool} (h : n.ownsRawLines = false)
    (cs : List Node) : (n.withChildren cs).HoldsRawLines interpolated := by
  cases n with
  | comment rendered condition content children p =>
    intro hr
    simp [ownsRawLines, hr] at h
  | filter => exact absurd h.symm Bool.false_ne_true
  | _ => trivial

end Node

end TemplateTree
