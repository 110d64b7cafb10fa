import Mathlib.Algebra.Group.Nat.Defs
import Mathlib.Data.List.Nodup
import TemplateTree.Node.Document
import TemplateTree.Proofs.Json.Documents
import TemplateTree.Proofs.RoundTrip

/-!
# Trees read back from their documents

A tree whose fields are of their types is written as a document that reads as the tree, unless one
of its numbers has too many digits or the document would nest too deep. Then what is read is written
as the same text again.
-/

set_option autoImplicit false

namespace TemplateTree

namespace Value

def IsText (v : Value) : Prop := ∃ s : String, v = .str (.chars s)

def IsOptionalText (v : Value) : Prop := v = .null ∨ v.IsText

def IsSwitch (v : Value) : Prop := ∃ b, v = .bool b

def IsInteger (v : Value) : Prop := ∃ i, v = .int i

theorem IsText.objects_eq {v : Value} (h : v.IsText) : v.objects = 0 := by
  obtain ⟨s, rfl⟩ := h
  rfl

theorem IsOptionalText.objects_eq {v : Value} (h : v.IsOptionalText) : v.objects = 0 := by
  rcases h with rfl | h
  · rfl
  · exact h.objects_eq

theorem IsSwitch.objects_eq {v : Value} (h : v.IsSwitch) : v.objects = 0 := by
  obtain ⟨b, rfl⟩ := h
  rfl

/-- A value that is no integer of too many digits. -/
def Short (v : Value) : Prop :=
  ∀ i, v = .int i → (Nat.toDigits 10 i.natAbs).length ≤ Json.maxDigits

theorem short_int {i : Int} (h : (Nat.toDigits 10 i.natAbs).length ≤ Json.maxDigits) :
    (int i).Short := by
  rintro j ⟨⟩
  exact h

mutual

/-- How many lists and objects of a value are open at once. -/
def depth : Value → Nat
  | .list items => itemsDepth items + 1
  | .object fields => fieldsDepth fields + 1
  | _ => 0

def itemsDepth : List Value → Nat
  | [] => 0
  | v :: rest => max (depth v) (itemsDepth rest)

def fieldsDepth : List (Str × Value) → Nat
  | [] => 0
  | (_, v) :: rest => max (depth v) (fieldsDepth rest)

end

theorem depth_le_itemsDepth {v : Value} {items : List Value} (h : v ∈ items) :
    v.depth ≤ itemsDepth items := by
  induction items with
  | nil => cases h
  | cons w items ih =>
    rw [itemsDepth]
    rcases List.mem_cons.mp h with rfl | h
    · exact Nat.le_max_left _ _
    · exact Nat.le_trans (ih h) (Nat.le_max_right _ _)

theorem depth_le_fieldsDepth {field : Str × Value} {fields : Fields} (h : field ∈ fields) :
    field.2.depth ≤ fieldsDepth fields := by
  induction fields with
  | nil => cases h
  | cons other fields ih =>
    rw [fieldsDepth]
    rcases List.mem_cons.mp h with rfl | h
    · exact Nat.le_max_left _ _
    · exact Nat.le_trans (ih h) (Nat.le_max_right _ _)

end Value

namespace Json

/-- A value that fits wherever there is room for its lists and objects. -/
def Admissible (v : Value) : Prop := ∀ depth, depth + v.depth ≤ maxDepth → Fits depth v

section Admissible
variable {v : Value} {items : List Value} {fields : Value.Fields}

theorem admissible_null : Admissible .null := fun _ _ => .null

theorem admissible_text (h : v.IsText) : Admissible v := by
  obtain ⟨s, rfl⟩ := h
  exact fun _ _ => .str s

theorem admissible_optionalText (h : v.IsOptionalText) : Admissible v := by
  rcases h with rfl | h
  · exact admissible_null
  · exact admissible_text h

theorem admissible_switch (h : v.IsSwitch) : Admissible v := by
  obtain ⟨b, rfl⟩ := h
  exact fun _ _ => .bool b

theorem admissible_integer (h : v.IsInteger) (short : v.Short) : Admissible v := by
  obtain ⟨i, rfl⟩ := h
  exact fun _ _ => .int (short i rfl)

theorem admissible_list (h : ∀ item ∈ items, Admissible item) : Admissible (.list items) := by
  intro depth hdepth
  rw [Value.depth] at hdepth
  refine .list (by omega) fun item hitem => h item hitem (depth + 1) ?_
  have hle := Value.depth_le_itemsDepth hitem
  omega

theorem admissible_object (keys : List String) (hkeys : fields.map Prod.fst = keys.map .chars)
    (hnodup : keys.Nodup) (h : ∀ field ∈ fields, Admissible field.2) :
    Admissible (.object fields) := by
  intro depth hdepth
  rw [Value.depth] at hdepth
  refine .object (by omega) ?_ (fun field hfield => ?_) fun field hfield => ?_
  · rw [hkeys]
    exact List.Nodup.map (fun _ _ => Str.chars.inj) hnodup
  · have hmem := List.mem_map_of_mem (f := Prod.fst) hfield
    rw [hkeys, List.mem_map] at hmem
    obtain ⟨s, -, hs⟩ := hmem
    exact ⟨s, hs.symm⟩
  · have hle := Value.depth_le_fieldsDepth hfield
    exact h field hfield (depth + 1) (by omega)

end Admissible

end Json

namespace Position
open Json

structure Typed (p : Position) : Prop where
  line : p.line.IsInteger
  column : p.column.IsInteger
  offset : p.offset.IsInteger

theorem typed_of (line column offset : Int) : (Position.of line column offset).Typed :=
  ⟨⟨line, rfl⟩, ⟨column, rfl⟩, ⟨offset, rfl⟩⟩

structure Short (p : Position) : Prop where
  line : p.line.Short
  column : p.column.Short
  offset : p.offset.Short

theorem short_of {line column offset : Int}
    (hline : (Nat.toDigits 10 line.natAbs).length ≤ maxDigits)
    (hcolumn : (Nat.toDigits 10 column.natAbs).length ≤ maxDigits)
    (hoffset : (Nat.toDigits 10 offset.natAbs).length ≤ maxDigits) :
    (Position.of line column offset).Short :=
  ⟨Value.short_int hline, Value.short_int hcolumn, Value.short_int hoffset⟩

theorem admissible {p : Option Position} (typed : ∀ q ∈ p, q.Typed) (short : ∀ q ∈ p, q.Short) :
    Admissible (toValue p) := by
  cases p with
  | none => exact admissible_null
  | some p =>
    have htyped := typed p rfl
    have hshort := short p rfl
    refine admissible_object ["line", "column", "offset"] rfl (by decide) ?_
    simp only [List.forall_mem_cons]
    exact ⟨admissible_integer htyped.line hshort.line,
      admissible_integer htyped.column hshort.column,
      admissible_integer htyped.offset hshort.offset, by simp⟩

end Position

namespace Node
open Json

/-- Fields that hold data of their types. -/
def TypedFields : Node → Prop
  | tag name .. => name.IsText
  | doctype id options _ => id.IsOptionalText ∧ options.IsOptionalText
  | comment rendered condition .. => rendered.IsSwitch ∧ condition.IsOptionalText
  | text content _ | run content _ _ | filter content _ _ => content.IsText
  | insert content _ preserve _ => content.IsText ∧ preserve.IsSwitch
  | _ => True

structure WellTyped (n : Node) : Prop where
  fields : n.TypedFields
  position : ∀ p ∈ n.position, p.Typed

def ShortFlags : Node → Prop
  | tag _ _ flags _ _ _ => (Value.int flags).Short
  | _ => True

/-- The flags of a tag and the numbers of a position that have not too many digits. -/
structure ShortNumbers (n : Node) : Prop where
  flags : n.ShortFlags
  position : ∀ p ∈ n.position, p.Short

theorem admissible_pack {kind : Kind} {fields : Value.Fields} {p : Option Position}
    (keys : List String) (hkeys : fields.map Prod.fst = keys.map .chars)
    (hnodup : ("node_type" :: keys ++ ["position"]).Nodup)
    (hfields : ∀ field ∈ fields, Admissible field.2) (hp : Admissible (Position.toValue p)) :
    Admissible (pack kind fields p) := by
  refine admissible_object ("node_type" :: keys ++ ["position"]) ?_ hnodup fun field hfield => ?_
  · simp [hkeys]
  · rw [List.cons_append, List.mem_cons, List.mem_append, List.mem_singleton] at hfield
    rcases hfield with rfl | hfield | rfl
    · exact admissible_text ⟨_, rfl⟩
    · exact hfields field hfield
    · exact hp

theorem admissible_toValues {ns : List Node} (h : ∀ n ∈ ns, Admissible n.toValue) :
    Admissible (.list (toValues ns)) := by
  rw [toValues_eq_map]
  refine admissible_list fun item hitem => ?_
  obtain ⟨n, hn, rfl⟩ := List.mem_map.mp hitem
  exact h n hn

theorem admissible_toOptionalValue {content : Option Node}
    (h : ∀ n ∈ content, Admissible n.toValue) : Admissible (toOptionalValue content) := by
  cases content with
  | none => exact admissible_null
  | some n => exact h n rfl

/-- The data of a tree with short numbers fits wherever there is room for it. -/
theorem admissible_toValue {n : Node} (typed : n.Everywhere WellTyped)
    (short : n.Everywhere ShortNumbers) : Admissible n.toValue := by
  induction typed with
  | @intro n here below ih =>
    have hp : Admissible (Position.toValue n.position) :=
      Position.admissible here.position short.here.position
    have hfields := here.fields
    have node : ∀ m ∈ n.subnodes, Admissible m.toValue := fun m hm => ih m hm (short.of_mem hm)
    have nodes : ∀ ms, ms ⊆ n.subnodes → Admissible (.list (toValues ms)) :=
      fun ms hms => admissible_toValues fun m hm => node m (hms hm)
    have optional : ∀ content : Option Node, content.toList ⊆ n.subnodes →
        Admissible (toOptionalValue content) :=
      fun content hc => admissible_toOptionalValue fun m hm => node m (hc (Option.mem_toList.mpr hm))
    cases n with
    | root cs p =>
      have hcs := nodes cs (List.Subset.refl _)
      exact admissible_pack ["children"] rfl (by decide) (by simp [hcs]) hp
    | tag name as flags c cs p =>
      have hname := admissible_text hfields
      have has := nodes as (by simp [subnodes])
      have hflags := admissible_integer ⟨_, rfl⟩ short.here.flags
      have hc := optional c (by simp [subnodes])
      have hcs := nodes cs (by simp [subnodes])
      exact admissible_pack ["name", "attributes", "flags", "content", "children"] rfl (by decide)
        (by simp [hname, has, hflags, hc, hcs]) hp
    | tagAttribute name value p =>
      have hname := node name List.mem_cons_self
      have hvalue := optional value (List.subset_cons_self _ _)
      exact admissible_pack ["name", "value"] rfl (by decide) (by simp [hname, hvalue]) hp
    | tagAttributeList value p | tagAttributeInterpolation value p =>
      have hvalue := node value List.mem_cons_self
      exact admissible_pack ["value"] rfl (by decide) (by simp [hvalue]) hp
    | doctype id options p =>
      have hid := admissible_optionalText hfields.1
      have hoptions := admissible_optionalText hfields.2
      exact admissible_pack ["doctype_id", "options"] rfl (by decide) (by simp [hid, hoptions]) hp
    | comment rendered condition c cs p =>
      have hrendered := admissible_switch hfields.1
      have hcondition := admissible_optionalText hfields.2
      have hc := optional c (by simp [subnodes])
      have hcs := nodes cs (by simp [subnodes])
      exact admissible_pack ["rendered", "condition", "content", "children"] rfl (by decide)
        (by simp [hrendered, hcondition, hc, hcs]) hp
    | text content p =>
      have hcontent := admissible_text hfields
      exact admissible_pack ["content"] rfl (by decide) (by simp [hcontent]) hp
    | interpolatedString cs e p =>
      have hcs := nodes cs (List.Subset.refl _)
      have he := admissible_text ⟨e.name, rfl⟩
      exact admissible_pack ["children", "escaping"] rfl (by decide) (by simp [hcs, he]) hp
    | insert content e preserve p =>
      have hcontent := admissible_text hfields.1
      have he := admissible_text ⟨e.name, rfl⟩
      have hpreserve := admissible_switch hfields.2
      exact admissible_pack ["content", "escaping", "preserve_whitespace"] rfl (by decide)
        (by simp [hcontent, he, hpreserve]) hp
    | run content cs p =>
      have hcontent := admissible_text hfields
      have hcs := nodes cs (List.Subset.refl _)
      exact admissible_pack ["content", "children"] rfl (by decide) (by simp [hcontent, hcs]) hp
    | statement content p =>
      have hcontent := node content List.mem_cons_self
      exact admissible_pack ["content"] rfl (by decide) (by simp [hcontent]) hp
    | filter name cs p =>
      have hname := admissible_text hfields
      have hcs := nodes cs (List.Subset.refl _)
      exact admissible_pack ["name", "children"] rfl (by decide) (by simp [hname, hcs]) hp
    | objectRefClass object qualifier p | objectRefId object qualifier p =>
      have hobject := node object List.mem_cons_self
      have hqualifier := optional qualifier (List.subset_cons_self _ _)
      exact admissible_pack ["object_ref", "prefix"] rfl (by decide)
        (by simp [hobject, hqualifier]) hp

theorem WellTyped.plain {n : Node} (h : n.WellTyped) : n.Plain := by
  have hfields := h.fields
  intro v hv
  cases n with
  | tag | text | run | filter =>
    rw [List.mem_singleton.mp hv]
    exact hfields.objects_eq
  | doctype =>
    rcases List.mem_pair.mp hv with rfl | rfl
    · exact hfields.1.objects_eq
    · exact hfields.2.objects_eq
  | comment | insert =>
    rcases List.mem_pair.mp hv with rfl | rfl
    · exact hfields.1.objects_eq
    · exact hfields.2.objects_eq
  | _ => cases hv

/-- A tree is read back from its document, in every layout, and what was read is written as the same
document. -/
theorem read_print {t : Node} (typed : t.Everywhere WellTyped) (short : t.Everywhere ShortNumbers)
    (room : t.toValue.depth ≤ maxDepth) (layout : Layout) : ∃ text, t.print layout = .ok text ∧
      Node.read text = .ok t ∧ ∀ t', Node.read text = .ok t' → t'.print layout = .ok text := by
  have hfits : Fits 0 t.toValue := admissible_toValue typed short 0 (by omega)
  obtain ⟨text, hprint, hread⟩ := exists_print hfits layout
  have hvalue := ofValue_toValue (typed.imp fun _ h => h.plain.storable)
  have hload : Node.read text = .ok t := by
    rw [Node.read, hread]
    dsimp only
    rw [hvalue]
    rfl
  refine ⟨text, hprint, hload, fun t' h => ?_⟩
  obtain rfl := Except.ok.inj (hload.symm.trans h)
  exact hprint

/-- A tag with a text of a quote, a backslash, control characters and a line separator. -/
def escapes : Node :=
  tag (.str "p") [] TagFlags.removeInner
    (some (text (.str "\"\\\n\x07\u2028") (some (.of 1 3 2)))) [] (some (.of 1 1 0))

theorem read_print_escapes : ∃ document, escapes.print (.indented 2) = .ok document ∧
    Node.read document = .ok escapes ∧
      ∀ t', Node.read document = .ok t' → t'.print (.indented 2) = .ok document := by
  have htyped : escapes.Everywhere WellTyped := by
    refine .intro ⟨⟨"p", rfl⟩, by rintro p ⟨⟩; exact Position.typed_of 1 1 0⟩ fun m hm => ?_
    obtain rfl := List.mem_singleton.mp hm
    exact .leaf ⟨⟨_, rfl⟩, by rintro p ⟨⟩; exact Position.typed_of 1 3 2⟩ rfl
  have hshort : escapes.Everywhere ShortNumbers := by
    refine .intro ⟨Value.short_int (by decide), ?_⟩ fun m hm => ?_
    · rintro p ⟨⟩
      exact Position.short_of (by decide) (by decide) (by decide)
    · obtain rfl := List.mem_singleton.mp hm
      refine .leaf ⟨trivial, ?_⟩ rfl
      rintro p ⟨⟩
      exact Position.short_of (by decide) (by decide) (by decide)
  exact read_print htyped hshort (by decide) (.indented 2)

/-- A text on a line of which the number has too many digits is not written. -/
theorem print_long_line {n : Nat} (h : ¬ (Nat.toDigits 10 n).length ≤ maxDigits) (s : Str)
    (layout : Layout) :
    (text (.str s) (some (.of n 1 0))).print layout = .error .tooManyDigits := by
  have hline : check 2 (.int n) = .error .tooManyDigits := by
    rw [check, Int.natAbs_natCast, if_neg h]
  have hposition : check 1 (Position.toValue (some (.of n 1 0))) = .error .tooManyDigits := by
    rw [Position.toValue, check, if_pos (by decide), checkFields, Position.of, hline]
    rfl
  rw [print, Json.print, toValue, pack, check, if_pos (by decide)]
  simp only [List.cons_append, List.nil_append, checkFields, hposition]
  rfl

theorem tooLong_pow {k : Nat} (h : 0 < k) : ¬ (Nat.toDigits 10 (10 ^ k)).length ≤ k := by
  rw [Nat.length_toDigits_le_iff (by decide) h]
  exact Nat.lt_irrefl _

/-- A text in so many statements. -/
def wrapped : Nat → Node
  | 0 => text (.str "a") none
  | k + 1 => statement (wrapped k) none

theorem wellTyped_wrapped (k : Nat) : (wrapped k).Everywhere WellTyped := by
  induction k with
  | zero => exact .leaf ⟨⟨"a", rfl⟩, fun _ h => nomatch h⟩ rfl
  | succ k ih =>
    refine .intro ⟨trivial, fun _ h => nomatch h⟩ fun m hm => ?_
    obtain rfl := List.mem_singleton.mp hm
    exact ih

theorem check_wrapped {k depth : Nat} (h : maxDepth ≤ depth + k) :
    check depth (wrapped k).toValue = .error .tooDeep := by
  induction k generalizing depth with
  | zero => rw [wrapped, toValue, pack, check, if_neg (by omega)]
  | succ k ih =>
    rw [wrapped, toValue, pack, check]
    split
    · rw [List.cons_append, checkFields, List.cons_append, checkFields, ih (by omega)]
      rfl
    · rfl

/-- Not every tree of typed fields is written: a line number may have too many digits, and nodes
may be too deep in each other. -/
theorem typed_not_written :
    ((text (.str "a") (some (.of ((10 ^ 4300 : Nat) : Int) 1 0))).Everywhere WellTyped ∧
      (text (.str "a") (some (.of ((10 ^ 4300 : Nat) : Int) 1 0))).print .oneLine =
        .error .tooManyDigits) ∧
    (wrapped 1000).Everywhere WellTyped ∧ (wrapped 1000).print .oneLine = .error .tooDeep := by
  have hlong := print_long_line (tooLong_pow (k := 4300) (by decide)) "a" .oneLine
  refine ⟨⟨.leaf ⟨⟨"a", rfl⟩, ?_⟩ rfl, hlong⟩, wellTyped_wrapped 1000, ?_⟩
  · rintro p ⟨⟩
    exact Position.typed_of _ 1 0
  · rw [print, Json.print, check_wrapped (by decide)]
    rfl

end Node

end TemplateTree
