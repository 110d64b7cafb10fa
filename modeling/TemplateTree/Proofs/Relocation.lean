import TemplateTree.Outline
import TemplateTree.Proofs.Shape

/-!
# Trees at other places

`relocate f` moves every position of a tree by `f` and changes nothing else. What an outline asks
about its nodes does not depend on positions.
-/

set_option autoImplicit false

namespace TemplateTree

namespace Node

mutual

def relocate (f : Position → Position) : Node → Node
  | root cs p => root (relocateAll f cs) (p.map f)
  | tag name as flags c cs p =>
    tag name (relocateAll f as) flags (relocateOptional f c) (relocateAll f cs) (p.map f)
  | tagAttribute name value p =>
    tagAttribute (relocate f name) (relocateOptional f value) (p.map f)
  | tagAttributeList value p => tagAttributeList (relocate f value) (p.map f)
  | tagAttributeInterpolation value p => tagAttributeInterpolation (relocate f value) (p.map f)
  | doctype id options p => doctype id options (p.map f)
  | comment rendered condition c cs p =>
    comment rendered condition (relocateOptional f c) (relocateAll f cs) (p.map f)
  | text content p => text content (p.map f)
  | interpolatedString cs e p => interpolatedString (relocateAll f cs) e (p.map f)
  | insert content e preserve p => insert content e preserve (p.map f)
  | run content cs p => run content (relocateAll f cs) (p.map f)
  | statement content p => statement (relocate f content) (p.map f)
  | filter name cs p => filter name (relocateAll f cs) (p.map f)
  | objectRefClass object qualifier p =>
    objectRefClass (relocate f object) (relocateOptional f qualifier) (p.map f)
  | objectRefId object qualifier p =>
    objectRefId (relocate f object) (relocateOptional f qualifier) (p.map f)

def relocateAll (f : Position → Position) : List Node → List Node
  | [] => []
  | n :: ns => relocate f n :: relocateAll f ns

def relocateOptional (f : Position → Position) : Option Node → Option Node
  | none => none
  | some n => some (relocate f n)

end

section Relocate
variable (f : Position → Position) (n child : Node) (ns : List Node)

@[simp] theorem relocateAll_eq_map : relocateAll f ns = ns.map (relocate f) := by
  induction ns with
  | nil => rfl
  | cons n ns ih => rw [relocateAll, ih, List.map_cons]

@[simp] theorem relocateOptional_eq_map (c : Option Node) :
    relocateOptional f c = c.map (relocate f) := by
  cases c <;> rfl

@[simp] theorem kind_relocate : (n.relocate f).kind = n.kind := by cases n <;> rfl

@[simp] theorem position_relocate : (n.relocate f).position = n.position.map f := by cases n <;> rfl

@[simp] theorem children_relocate : (n.relocate f).children = n.children.map (relocate f) := by
  cases n <;> simp [relocate, children]

@[simp] theorem withChildren_relocate :
    (n.withChildren ns).relocate f = (n.relocate f).withChildren (ns.map (relocate f)) := by
  cases n <;> simp [relocate, withChildren]

@[simp] theorem withEscaping_relocate (e : Escaping) :
    (n.withEscaping e).relocate f = (n.relocate f).withEscaping e := by
  cases n <;> rfl

theorem addChild_relocate :
    (n.addChild child).relocate f = (n.relocate f).addChild (child.relocate f) := by
  simp [addChild]

theorem lastAt_relocate (depth : Nat) :
    (n.relocate f).lastAt depth = (n.lastAt depth).relocate f := by
  induction depth generalizing n with
  | zero => rfl
  | succ depth ih =>
    rw [lastAt, lastAt, children_relocate, List.getLast?_map]
    cases n.children.getLast? with
    | none => rfl
    | some last => exact ih last

theorem addChildAt_relocate (depth : Nat) : (n.addChildAt depth child).relocate f =
    (n.relocate f).addChildAt depth (child.relocate f) := by
  induction depth generalizing n with
  | zero => exact addChild_relocate f n child
  | succ depth ih =>
    rw [addChildAt, addChildAt, children_relocate, List.getLast?_map]
    cases n.children.getLast? with
    | none => rfl
    | some last => simp [ih, List.map_dropLast]

theorem refusal?_relocate : Outline.refusal? (n.relocate f) = Outline.refusal? n := by
  cases n with
  | statement content p =>
    have hlabel := congrArg Kind.label (kind_relocate f content)
    exact congrArg (fun label => some (SyntaxError.Cause.closedKind label)) hlabel
  | tag name as flags c cs p =>
    cases c <;> rfl
  | comment rendered condition c cs p => cases c <;> rfl
  | _ => rfl

end Relocate

mutual

theorem relocate_id : ∀ n : Node, n.relocate id = n
  | root cs p => by rw [relocate, relocateAll_id cs, Option.map_id_apply]
  | tag name as flags c cs p => by
    rw [relocate, relocateAll_id as, relocateOptional_id c, relocateAll_id cs,
      Option.map_id_apply]
  | tagAttribute name value p => by
    rw [relocate, relocate_id name, relocateOptional_id value, Option.map_id_apply]
  | tagAttributeList value p => by rw [relocate, relocate_id value, Option.map_id_apply]
  | tagAttributeInterpolation value p => by rw [relocate, relocate_id value, Option.map_id_apply]
  | doctype id options p => by rw [relocate, Option.map_id_apply]
  | comment rendered condition c cs p => by
    rw [relocate, relocateOptional_id c, relocateAll_id cs, Option.map_id_apply]
  | text content p => by rw [relocate, Option.map_id_apply]
  | interpolatedString cs e p => by rw [relocate, relocateAll_id cs, Option.map_id_apply]
  | insert content e preserve p => by rw [relocate, Option.map_id_apply]
  | run content cs p => by rw [relocate, relocateAll_id cs, Option.map_id_apply]
  | statement content p => by rw [relocate, relocate_id content, Option.map_id_apply]
  | filter name cs p => by rw [relocate, relocateAll_id cs, Option.map_id_apply]
  | objectRefClass object qualifier p => by
    rw [relocate, relocate_id object, relocateOptional_id qualifier, Option.map_id_apply]
  | objectRefId object qualifier p => by
    rw [relocate, relocate_id object, relocateOptional_id qualifier, Option.map_id_apply]

theorem relocateAll_id : ∀ ns : List Node, relocateAll id ns = ns
  | [] => rfl
  | n :: ns => by rw [relocateAll, relocate_id n, relocateAll_id ns]

theorem relocateOptional_id : ∀ c : Option Node, relocateOptional id c = c
  | none => rfl
  | some n => by rw [relocateOptional, relocate_id n]

end

end Node

namespace Outline

def relocate (f : Position → Position) (o : Outline) : Outline :=
  { o with root := o.root.relocate f }

section Relocate
variable (f : Position → Position) (o : Outline)

theorem ascend_relocate (count : Nat) :
    ascend count (o.relocate f) = ((ascend count o).1, (ascend count o).2.relocate f) := by
  induction count generalizing o with
  | zero => rfl
  | succ count ih =>
    cases hancestors : o.ancestors with
    | nil => simp only [ascend, relocate, hancestors]
    | cons parent ancestors =>
      simp only [ascend, relocate, hancestors]
      exact ih { o with ancestors, parent }

theorem descend_relocate :
    (o.relocate f).descend = (o.descend.1, o.descend.2.relocate f) := by
  have hroom : (o.relocate f).hasRoom = o.hasRoom := rfl
  unfold descend
  rw [hroom]
  cases hlast : o.last with
  | none => simp only [relocate, hlast]
  | some last =>
    cases o.hasRoom with
    | true => simp only [relocate, hlast, if_true]
    | false => simp only [relocate, hlast, Bool.false_eq_true, if_false]

theorem attach_relocate (statement : Node) : (o.relocate f).attach (statement.relocate f) =
    ((o.attach statement).1, (o.attach statement).2.relocate f) := by
  have hparent : Outline.refusal? (o.relocate f).parentNode = Outline.refusal? o.parentNode := by
    rw [parentNode, parentNode, relocate, Node.lastAt_relocate, Node.refusal?_relocate]
  unfold attach
  rw [hparent]
  cases refusal? o.parentNode with
  | some cause => rfl
  | none => simp only [relocate, Node.addChildAt_relocate]

/-- Statements are added to a tree wherever its nodes are placed. -/
theorem insert_relocate (statement : Node) (level previous : Int) :
    (o.relocate f).insert (statement.relocate f) level previous =
      ((o.insert statement level previous).1, (o.insert statement level previous).2.relocate f) := by
  unfold insert
  by_cases hlt : previous < level
  · rw [if_pos hlt, if_pos hlt, descend_relocate]
    rcases o.descend with ⟨_ | _, moved⟩
    · rfl
    · exact attach_relocate f moved statement
  · rw [if_neg hlt, if_neg hlt, ascend_relocate]
    rcases ascend (previous - level).toNat o with ⟨_ | _, moved⟩
    · rfl
    · exact attach_relocate f moved statement

end Relocate

/-- Statements that are alike are added alike to outlines that are alike. -/
theorem insert_alike {f f' : Position → Position} {o o' : Outline} {statement statement' : Node}
    (ho : o.relocate f = o'.relocate f') (hs : statement.relocate f = statement'.relocate f')
    (level previous : Int) :
    (o'.insert statement' level previous).1 = (o.insert statement level previous).1 ∧
      (o.insert statement level previous).2.relocate f =
        (o'.insert statement' level previous).2.relocate f' := by
  have hinsert := o.insert_relocate f statement level previous
  rw [ho, hs, insert_relocate] at hinsert
  obtain ⟨hadded, hgrown⟩ := Prod.mk.inj hinsert
  exact ⟨hadded, hgrown.symm⟩

end Outline

end TemplateTree
