import TemplateTree.Proofs.Comparing
import TemplateTree.Production.Strings

/-!
# Nodes at their places

What a node of a template that is read says stands in the source where its position is. An insert of
a string, of an attribute or of an object reference has its code there, a raw line and the text of a
comment have their text there. An insert with a line of its own, or with the rest of the line of a
tag, is there with its marker and goes up to the end of the line.

`Pair` holds of two nodes that correspond to each other, of which the first is at its place.
-/

set_option autoImplicit false

namespace TemplateTree

namespace Node

section Located
variable (lies : Position → Prop) (reads : List Char → Position → Prop)

/-- Code of the host language that stands in the source as it is. A tag cannot take its place. -/
def Captured : Node → Prop
  | insert content _ _ p =>
    ∃ s q after, content = .str (.chars s) ∧ p = some q ∧ reads (s.toList ++ after) q
  | tag .. => False
  | _ => True

/-- A text that stands in the source as it is. -/
def CapturedText : Node → Prop
  | text content p =>
    ∃ s q after, content = .str (.chars s) ∧ p = some q ∧ reads (s.toList ++ after) q
  | tag .. => False
  | _ => True

/-- Code that follows its marker and goes up to the end of the line. -/
def Marked : Node → Prop
  | insert content e preserve p => ∃ s q modifier marker blanks, content = .str (.chars s) ∧
      p = some q ∧ (modifier = [] ∧ e = .inherit ∨ modifier = ['&'] ∧ e = .enabled ∨
        modifier = ['!'] ∧ e = .disabled) ∧
      (marker = '=' ∧ preserve = .bool false ∨ marker = '~' ∧ preserve = .bool true) ∧
      (∀ c ∈ blanks, Text.isBlank c) ∧ reads (modifier ++ marker :: blanks ++ s.toList) q
  | tag .. => False
  | _ => True

/-- What is directly below a node stands in the source as it is. -/
def Verbatim : Node → Prop
  | interpolatedString parts _ _ => ∀ n ∈ parts, n.Captured reads
  | tagAttribute name value _ => name.Captured reads ∧ ∀ n ∈ value, n.Captured reads
  | tagAttributeList value _ | tagAttributeInterpolation value _ => value.Captured reads
  | objectRefClass object qualifier _ | objectRefId object qualifier _ =>
    object.Captured reads ∧ ∀ n ∈ qualifier, n.Captured reads
  | statement content _ => content.Marked reads ∧ content.CapturedText reads
  | comment _ _ content _ _ => ∀ n ∈ content, n.CapturedText reads
  | tag _ _ _ content _ _ => ∀ n ∈ content, n.Marked reads
  | _ => True

/-- A node at its place. No tag is below it that a line of its own does not start with. -/
structure Located (n : Node) : Prop where
  lies : ∃ p, n.position = some p ∧ lies p
  verbatim : n.Verbatim reads
  tagless : ∀ m ∈ n.subnodes, m.kind ≠ .tag

variable {lies reads} {n : Node}

theorem Captured.kind_ne (h : n.Captured reads) : n.kind ≠ .tag := by
  cases n with
  | tag => exact h.elim
  | _ => nofun

theorem CapturedText.kind_ne (h : n.CapturedText reads) : n.kind ≠ .tag := by
  cases n with
  | tag => exact h.elim
  | _ => nofun

theorem Marked.kind_ne (h : n.Marked reads) : n.kind ≠ .tag := by
  cases n with
  | tag => exact h.elim
  | _ => nofun

theorem Everywhere.located_leaf (hlies : ∃ p, n.position = some p ∧ lies p) (hverbatim : n.Verbatim reads)
    (hn : n.subnodes = []) : n.Everywhere (Located lies reads) :=
  .leaf ⟨hlies, hverbatim, by simp [hn]⟩ hn

theorem Everywhere.located (hlies : ∃ p, n.position = some p ∧ lies p)
    (hverbatim : n.Verbatim reads)
    (hbelow : ∀ m ∈ n.subnodes, m.kind ≠ .tag ∧ m.Everywhere (Located lies reads)) :
    n.Everywhere (Located lies reads) :=
  .intro ⟨hlies, hverbatim, fun m hm => (hbelow m hm).1⟩ fun m hm => (hbelow m hm).2

end Located

theorem IsAttribute.kind_ne {n : Node} (h : n.IsAttribute) : n.kind ≠ .tag := by
  cases n with
  | tag => exact h.elim
  | _ => nofun

theorem IsRawLine.kind_ne {n : Node} (h : n.IsRawLine) : n.kind ≠ .tag := by
  obtain ⟨s, p, q, rfl⟩ := h
  nofun

theorem IsFilterLine.kind_ne {n : Node} {i : Bool} (h : n.IsFilterLine i) : n.kind ≠ .tag := by
  rcases h with h | ⟨-, parts, e, p, q, rfl⟩
  · exact h.kind_ne
  · nofun

end Node

namespace Correspondence
open Node

variable (K : Correspondence)

structure Pair (n n' : Node) : Prop where
  same : K.Same n n'
  located : n.Everywhere (Located K.lies K.reads)

structure Pairs (ns ns' : List Node) : Prop where
  same : ns.map (relocate K.first) = ns'.map (relocate K.second)
  located : ∀ n ∈ ns, n.Everywhere (Located K.lies K.reads)

structure PairOption (c c' : Option Node) : Prop where
  same : c.map (relocate K.first) = c'.map (relocate K.second)
  located : ∀ n ∈ c, n.Everywhere (Located K.lies K.reads)

structure MeetsAt (p p' : Option Position) : Prop where
  same : p.map K.first = p'.map K.second
  lies : ∃ q, p = some q ∧ K.lies q

/-- What may stand below a node that takes code as it is. -/
def PairCaptured (n n' : Node) : Prop := K.Pair n n' ∧ n.Captured K.reads

def PairsCaptured (ns ns' : List Node) : Prop := K.Pairs ns ns' ∧ ∀ n ∈ ns, n.Captured K.reads

variable {K} {n n' m m' : Node} {ns ns' ms ms' : List Node} {p p' : Option Position}
  {q q' : Position}

theorem Meets.at (h : K.Meets q q') : K.MeetsAt (some q) (some q') :=
  ⟨congrArg some h.1, q, rfl, h.2⟩

theorem PairCaptured.located (h : K.PairCaptured n n') :
    n.kind ≠ .tag ∧ n.Everywhere (Located K.lies K.reads) := ⟨h.2.kind_ne, h.1.located⟩

namespace Pair

theorem option (h : K.Pair n n') : K.PairOption (some n) (some n') := by
  refine ⟨congrArg some h.same, fun m hm => ?_⟩
  rw [← Option.some.inj hm]
  exact h.located

theorem meetsAt (h : K.Pair n n') : K.MeetsAt n.position n'.position := by
  obtain ⟨q, hq, hlies⟩ := h.located.here.lies
  refine ⟨?_, q, hq, hlies⟩
  have hsame := congrArg position h.same
  rwa [position_relocate, position_relocate] at hsame

theorem pairs (h : K.Pair n n') : K.Pairs [n] [n'] :=
  ⟨congrArg (fun m => [m]) h.same, by simpa using h.located⟩

end Pair

namespace Pairs

theorem nil : K.Pairs [] [] := ⟨rfl, by simp⟩

theorem append (h : K.Pairs ns ns') (hm : K.Pairs ms ms') : K.Pairs (ns ++ ms) (ns' ++ ms') := by
  refine ⟨by rw [List.map_append, List.map_append, h.same, hm.same], fun n hn => ?_⟩
  rcases List.mem_append.mp hn with hn | hn
  · exact h.located n hn
  · exact hm.located n hn

theorem concat (h : K.Pairs ns ns') (hm : K.Pair m m') : K.Pairs (ns ++ [m]) (ns' ++ [m']) :=
  h.append hm.pairs

theorem cons (hm : K.Pair m m') (h : K.Pairs ns ns') : K.Pairs (m :: ns) (m' :: ns') :=
  hm.pairs.append h

theorem of_cons (h : K.Pairs (n :: ns) ms') :
    ∃ n' ns', ms' = n' :: ns' ∧ K.Pair n n' ∧ K.Pairs ns ns' := by
  cases ms' with
  | nil => cases h.same
  | cons n' ns' =>
    obtain ⟨hn, hns⟩ := List.forall_mem_cons.mp h.located
    obtain ⟨hsame, hrest⟩ := List.cons.inj h.same
    exact ⟨n', ns', rfl, ⟨hsame, hn⟩, ⟨hrest, hns⟩⟩

theorem head? (h : K.Pairs ns ns') : K.PairOption ns.head? ns'.head? where
  same := by rw [← List.head?_map, ← List.head?_map, h.same]
  located := fun n hn => h.located n (List.mem_of_mem_head? hn)

end Pairs

section Constructors

theorem pair_text (v : Value) (hp : K.MeetsAt p p') : K.Pair (.text v p) (.text v p') :=
  ⟨by rw [Same, relocate, relocate, hp.same], .located_leaf hp.lies trivial rfl⟩

theorem pair_insert (v : Value) (e : Escaping) (w : Value) (hp : K.MeetsAt p p') :
    K.Pair (.insert v e w p) (.insert v e w p') :=
  ⟨by rw [Same, relocate, relocate, hp.same], .located_leaf hp.lies trivial rfl⟩

theorem pair_run (v : Value) (hp : K.MeetsAt p p') : K.Pair (.run v [] p) (.run v [] p') :=
  ⟨by rw [Same, relocate, relocate, hp.same]; rfl, .located_leaf hp.lies trivial rfl⟩

theorem pair_doctype (id options : Value) (hp : K.MeetsAt p p') :
    K.Pair (.doctype id options p) (.doctype id options p') :=
  ⟨by rw [Same, relocate, relocate, hp.same], .located_leaf hp.lies trivial rfl⟩

theorem pair_interpolatedString (e : Escaping) (hns : K.Pairs ns ns')
    (hcaptured : ∀ n ∈ ns, n.Captured K.reads) (hp : K.MeetsAt p p') :
    K.Pair (.interpolatedString ns e p) (.interpolatedString ns' e p') where
  same := by simp only [Same, relocate, relocateAll_eq_map, hns.same, hp.same]
  located := .located hp.lies hcaptured fun m hm => ⟨(hcaptured m hm).kind_ne, hns.located m hm⟩

theorem pair_filter (name : Value) (hns : K.Pairs ns ns') (htagless : ∀ n ∈ ns, n.kind ≠ .tag)
    (hp : K.MeetsAt p p') : K.Pair (.filter name ns p) (.filter name ns' p') where
  same := by simp only [Same, relocate, relocateAll_eq_map, hns.same, hp.same]
  located := .located hp.lies trivial fun m hm => ⟨htagless m hm, hns.located m hm⟩

theorem pair_comment (rendered condition : Value) {c c' : Option Node} (hcontent : K.PairOption c c')
    (hcaptured : ∀ m ∈ c, m.CapturedText K.reads) (hns : K.Pairs ns ns')
    (htagless : ∀ n ∈ ns, n.kind ≠ .tag) (hp : K.MeetsAt p p') :
    K.Pair (.comment rendered condition c ns p) (.comment rendered condition c' ns' p') where
  same := by
    simp only [Same, relocate, relocateAll_eq_map, relocateOptional_eq_map, hcontent.same, hns.same,
      hp.same]
  located := by
    refine .located hp.lies hcaptured fun m hm => ?_
    rcases List.mem_append.mp hm with hm | hm
    · have hmem := Option.mem_toList.mp hm
      exact ⟨(hcaptured m hmem).kind_ne, hcontent.located m hmem⟩
    · exact ⟨htagless m hm, hns.located m hm⟩

theorem pair_tag (name : Value) (flags : TagFlags) {c c' : Option Node} (hns : K.Pairs ns ns')
    (htagless : ∀ n ∈ ns, n.kind ≠ .tag) (hcontent : K.PairOption c c')
    (hmarked : ∀ m ∈ c, m.Marked K.reads) (hp : K.MeetsAt p p') :
    K.Pair (.tag name ns flags c [] p) (.tag name ns' flags c' [] p') where
  same := by
    simp only [Same, relocate, relocateAll_eq_map, relocateOptional_eq_map, hcontent.same, hns.same,
      hp.same, List.map_nil]
  located := by
    refine .located hp.lies hmarked fun m hm => ?_
    rw [subnodes, List.append_nil] at hm
    rcases List.mem_append.mp hm with hm | hm
    · exact ⟨htagless m hm, hns.located m hm⟩
    · have hmem := Option.mem_toList.mp hm
      exact ⟨(hmarked m hmem).kind_ne, hcontent.located m hmem⟩

theorem pair_tagAttribute (hname : K.PairCaptured n n') (hvalue : K.PairCaptured m m')
    (hp : K.MeetsAt p p') : K.Pair (.tagAttribute n (some m) p) (.tagAttribute n' (some m') p') where
  same := by
    have hn : n.relocate K.first = n'.relocate K.second := hname.1.same
    have hm : m.relocate K.first = m'.relocate K.second := hvalue.1.same
    simp only [Same, relocate, relocateOptional, hn, hm, hp.same]
  located := by
    refine .located hp.lies ⟨hname.2, fun v hv => ?_⟩ ?_
    · rw [← Option.some.inj hv]
      exact hvalue.2
    · exact List.forall_mem_cons.mpr ⟨hname.located, List.forall_mem_singleton.mpr hvalue.located⟩

theorem pair_flagAttribute (hname : K.PairCaptured n n') (hp : K.MeetsAt p p') :
    K.Pair (.tagAttribute n none p) (.tagAttribute n' none p') where
  same := by
    have hn : n.relocate K.first = n'.relocate K.second := hname.1.same
    simp only [Same, relocate, relocateOptional, hn, hp.same]
  located := .located hp.lies ⟨hname.2, by simp⟩ (List.forall_mem_singleton.mpr hname.located)

theorem pair_tagAttributeList (hvalue : K.PairCaptured n n') (hp : K.MeetsAt p p') :
    K.Pair (.tagAttributeList n p) (.tagAttributeList n' p') where
  same := by
    have hn : n.relocate K.first = n'.relocate K.second := hvalue.1.same
    simp only [Same, relocate, hn, hp.same]
  located := .located hp.lies hvalue.2 (List.forall_mem_singleton.mpr hvalue.located)

theorem pair_tagAttributeInterpolation (hvalue : K.PairCaptured n n') (hp : K.MeetsAt p p') :
    K.Pair (.tagAttributeInterpolation n p) (.tagAttributeInterpolation n' p') where
  same := by
    have hn : n.relocate K.first = n'.relocate K.second := hvalue.1.same
    simp only [Same, relocate, hn, hp.same]
  located := .located hp.lies hvalue.2 (List.forall_mem_singleton.mpr hvalue.located)

theorem pair_objectRefs {c c' : Option Node} (hobject : K.PairCaptured n n')
    (hqualifier : K.PairOption c c') (hcaptured : ∀ m ∈ c, m.Captured K.reads)
    (hp : K.MeetsAt p p') : K.Pair (.objectRefClass n c p) (.objectRefClass n' c' p') ∧
      K.Pair (.objectRefId n c p) (.objectRefId n' c' p') := by
  have hn : n.relocate K.first = n'.relocate K.second := hobject.1.same
  have hbelow : ∀ m ∈ n :: c.toList, m.kind ≠ .tag ∧ m.Everywhere (Located K.lies K.reads) := by
    refine List.forall_mem_cons.mpr ⟨hobject.located, fun m hm => ?_⟩
    have hmem := Option.mem_toList.mp hm
    exact ⟨(hcaptured m hmem).kind_ne, hqualifier.located m hmem⟩
  constructor
  · refine ⟨?_, .located hp.lies ⟨hobject.2, hcaptured⟩ hbelow⟩
    simp only [Same, relocate, relocateOptional_eq_map, hn, hqualifier.same, hp.same]
  · refine ⟨?_, .located hp.lies ⟨hobject.2, hcaptured⟩ hbelow⟩
    simp only [Same, relocate, relocateOptional_eq_map, hn, hqualifier.same, hp.same]

theorem pair_statement (hcontent : K.Pair n n') (hmarked : n.Marked K.reads)
    (htext : n.CapturedText K.reads) (hp : K.MeetsAt p p') :
    K.Pair (.statement n p) (.statement n' p') where
  same := by
    have hn : n.relocate K.first = n'.relocate K.second := hcontent.same
    simp only [Same, relocate, hn, hp.same]
  located := .located hp.lies ⟨hmarked, htext⟩
    (List.forall_mem_singleton.mpr ⟨hmarked.kind_ne, hcontent.located⟩)

/-- A node on a line of its own. -/
theorem pair_wrap (hcontent : K.Pair n n') (hmarked : n.Marked K.reads)
    (htext : n.CapturedText K.reads) : K.Pair n.wrap n'.wrap :=
  pair_statement hcontent hmarked htext hcontent.meetsAt

end Constructors

end Correspondence

end TemplateTree
