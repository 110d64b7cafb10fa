import TemplateTree.Node.Basic

/-!
# Equality of trees

Two nodes are equal when they are of one kind and all their fields and positions are equal; plain
fields compare as data values.
-/

set_option autoImplicit false

namespace TemplateTree

namespace Position

def equalOptional : Option Position → Option Position → Bool
  | none, none => true
  | some p, some q => p.equal q
  | _, _ => false

end Position

namespace Node

mutual

def equal : Node → Node → Bool
  | root cs p, root cs' p' => equalList cs cs' && Position.equalOptional p p'
  | tag name as flags c cs p, tag name' as' flags' c' cs' p' =>
    name.equal name' && equalList as as' && flags == flags' && equalOptional c c' &&
      equalList cs cs' && Position.equalOptional p p'
  | tagAttribute n v p, tagAttribute n' v' p' =>
    equal n n' && equalOptional v v' && Position.equalOptional p p'
  | tagAttributeList v p, tagAttributeList v' p' => equal v v' && Position.equalOptional p p'
  | tagAttributeInterpolation v p, tagAttributeInterpolation v' p' =>
    equal v v' && Position.equalOptional p p'
  | doctype id options p, doctype id' options' p' =>
    id.equal id' && options.equal options' && Position.equalOptional p p'
  | comment rendered condition c cs p, comment rendered' condition' c' cs' p' =>
    rendered.equal rendered' && condition.equal condition' && equalOptional c c' &&
      equalList cs cs' && Position.equalOptional p p'
  | text c p, text c' p' => c.equal c' && Position.equalOptional p p'
  | interpolatedString cs e p, interpolatedString cs' e' p' =>
    equalList cs cs' && e == e' && Position.equalOptional p p'
  | insert c e w p, insert c' e' w' p' =>
    c.equal c' && e == e' && w.equal w' && Position.equalOptional p p'
  | run c cs p, run c' cs' p' => c.equal c' && equalList cs cs' && Position.equalOptional p p'
  | statement c p, statement c' p' => equal c c' && Position.equalOptional p p'
  | filter name cs p, filter name' cs' p' =>
    name.equal name' && equalList cs cs' && Position.equalOptional p p'
  | objectRefClass o q p, objectRefClass o' q' p' =>
    equal o o' && equalOptional q q' && Position.equalOptional p p'
  | objectRefId o q p, objectRefId o' q' p' =>
    equal o o' && equalOptional q q' && Position.equalOptional p p'
  | _, _ => false

def equalList : List Node → List Node → Bool
  | [], [] => true
  | n :: ns, m :: ms => equal n m && equalList ns ms
  | _, _ => false

def equalOptional : Option Node → Option Node → Bool
  | none, none => true
  | some n, some m => equal n m
  | _, _ => false

end

end Node

end TemplateTree
