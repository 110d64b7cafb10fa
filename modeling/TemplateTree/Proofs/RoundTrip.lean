import TemplateTree.Node.Data
import TemplateTree.Proofs.Loading
import TemplateTree.Proofs.Shape

/-!
# Trees and their data

The data of a tree loads as the same tree when the objects in its plain fields can be loaded. A tree
that was loaded has such fields, because they were loaded with it, so what is loaded a second time
is what was loaded before.
-/

set_option autoImplicit false

namespace TemplateTree.Node

open Value (Fields)

/-- The fields of a node that hold data. -/
def plainFields : Node → List Value
  | tag name .. => [name]
  | doctype id options _ => [id, options]
  | comment rendered condition .. => [rendered, condition]
  | text content _ => [content]
  | insert content _ preserve _ => [content, preserve]
  | run content .. => [content]
  | filter name .. => [name]
  | _ => []

/-- A node whose plain fields hold no objects, as texts, numbers, switches and nothing at all. -/
def Plain (n : Node) : Prop := ∀ v ∈ n.plainFields, v.objects = 0

/-- A node whose plain fields hold no object that cannot be loaded. -/
def Storable (n : Node) : Prop := ∀ v ∈ n.plainFields, ∃ slot, loadSlot v = .ok slot

section Plain
variable {v : Value} {items : List Value} {n : Node}

theorem loadItems_of_objects (h : Value.itemObjects items = 0) :
    ∃ slots, loadItems items = .ok slots := by
  induction items with
  | nil => exact ⟨[], rfl⟩
  | cons v rest ih =>
    rw [Value.itemObjects] at h
    obtain ⟨slots, hslots⟩ := ih (by omega)
    cases v with
    | object fields =>
      rw [Value.objects] at h
      omega
    | _ =>
      refine ⟨none :: slots, ?_⟩
      rw [loadItems, hslots]
      · rfl
      · simp

theorem loadSlot_of_objects (h : v.objects = 0) : ∃ slot, loadSlot v = .ok slot := by
  cases v with
  | object fields =>
    rw [Value.objects] at h
    omega
  | list items =>
    obtain ⟨slots, hslots⟩ := loadItems_of_objects h
    exact ⟨.list (.list items) slots, by rw [loadSlot, hslots]; rfl⟩
  | _ => exact ⟨.plain _, rfl⟩

theorem Plain.storable (h : n.Plain) : n.Storable := fun v hv => loadSlot_of_objects (h v hv)

theorem value_of_loadSlot {slot : Slot} (h : loadSlot v = .ok slot) : slot.value = v := by
  cases v with
  | object fields =>
    rw [loadSlot_object] at h
    cases hn : loadObject fields with
    | error e => simp [hn, bind, Except.bind] at h
    | ok n =>
      rw [hn] at h
      cases h
      rfl
  | list items =>
    rw [loadSlot] at h
    cases hs : loadItems items with
    | error e => simp [hs, bind, Except.bind] at h
    | ok slots =>
      rw [hs] at h
      cases h
      rfl
  | _ =>
    cases h
    rfl

/-- A plain field as what its slot says. -/
theorem Storable.slot (h : n.Storable) (hv : v ∈ n.plainFields) :
    ∃ slot, loadSlot v = .ok slot ∧ v = slot.value := by
  obtain ⟨slot, hslot⟩ := h v hv
  exact ⟨slot, hslot, (value_of_loadSlot hslot).symm⟩

end Plain

section Saved
variable {n : Node} {ns : List Node}

theorem exists_toValue (n : Node) : ∃ fields, n.toValue = .object fields := by
  cases n <;> exact ⟨_, rfl⟩

theorem loadSlot_toValue (h : ofValue n.toValue = .ok n) :
    loadSlot n.toValue = .ok (.node n.toValue n) := by
  obtain ⟨fields, hfields⟩ := exists_toValue n
  rw [hfields] at h ⊢
  rw [loadSlot_object, ← ofValue_object, h]
  rfl

theorem loadItems_toValues (h : ∀ n ∈ ns, ofValue n.toValue = .ok n) :
    loadItems (toValues ns) = .ok (ns.map some) := by
  induction ns with
  | nil => rfl
  | cons n ns ih =>
    have hn := h n List.mem_cons_self
    have hns := ih fun m hm => h m (List.mem_cons_of_mem n hm)
    obtain ⟨fields, hfields⟩ := exists_toValue n
    rw [hfields, ofValue_object] at hn
    rw [toValues, hfields, loadItems_object, hn, hns]
    rfl

theorem loadSlot_toValues (h : ∀ n ∈ ns, ofValue n.toValue = .ok n) :
    loadSlot (.list (toValues ns)) = .ok (.list (.list (toValues ns)) (ns.map some)) := by
  rw [loadSlot, loadItems_toValues h]
  rfl

theorem toNodes_map_some (v : Value) (ns : List Node) :
    (Slot.list v (ns.map some)).toNodes = .ok ns := by
  rw [Slot.toNodes]
  induction ns with
  | nil => rfl
  | cons n ns ih =>
    rw [List.map_cons, List.mapM_cons, ih]
    rfl

theorem loadSlot_toOptionalValue {content : Option Node}
    (h : ∀ n ∈ content, ofValue n.toValue = .ok n) :
    ∃ slot, loadSlot (toOptionalValue content) = .ok slot ∧ slot.toOptionalNode = .ok content := by
  cases content with
  | none => exact ⟨.plain .null, rfl, rfl⟩
  | some n => exact ⟨_, loadSlot_toValue (h n rfl), rfl⟩

end Saved

section Getters
variable {slots : Slots} {key : String} {slot : Slot} {v : Value} {n : Node} {ns : List Node}
  {content : Option Node}

theorem bind_ok {α β : Type} {x : Except LoadError α} {f : α → Except LoadError β} {a : α} {b : β}
    (hx : x = .ok a) (hf : f a = .ok b) : (x >>= f) = .ok b := by
  rw [hx]
  exact hf

theorem exists_of_bind_ok {α β : Type} {x : Except LoadError α} {f : α → Except LoadError β}
    {b : β} (h : (x >>= f) = .ok b) : ∃ a, x = .ok a ∧ f a = .ok b := by
  cases hx : x with
  | error e => simp [hx, bind, Except.bind] at h
  | ok a => exact ⟨a, rfl, by rwa [hx] at h⟩

theorem field_ok (h : slots.get? key = some slot) : slots.field key = .ok slot := by
  rw [Slots.field, h]

theorem get?_of_field (h : slots.field key = .ok slot) : slots.get? key = some slot := by
  rw [Slots.field] at h
  cases hget : slots.get? key with
  | none => simp [hget] at h
  | some other => simpa [hget] using h

theorem value_ok (h : slots.get? key = some slot) : slots.value key = .ok slot.value :=
  bind_ok (field_ok h) rfl

theorem node_ok (h : slots.get? key = some (.node v n)) : slots.node key = .ok n :=
  bind_ok (field_ok h) rfl

theorem nodes_ok (h : slots.get? key = some (.list v (ns.map some))) :
    slots.nodes key = .ok ns :=
  bind_ok (field_ok h) (toNodes_map_some v ns)

theorem optionalNode_ok (h : slots.get? key = some slot) (hc : slot.toOptionalNode = .ok content) :
    slots.optionalNode key = .ok content :=
  bind_ok (field_ok h) hc

theorem flags_ok {flags : TagFlags} (h : slots.get? key = some (.plain (.int flags))) :
    slots.flags key = .ok flags :=
  bind_ok (value_ok h) rfl

theorem escaping_ok {e : Escaping} (h : slots.get? key = some (.plain (.str e.name))) :
    slots.escaping key = .ok e := by
  refine bind_ok (value_ok h) ?_
  simp only [Slot.value, Escaping.ofName?_name]
  rfl

end Getters

section Pack
variable {kind : Kind} {fields : Fields} {slots : Slots} {p : Option Position} {key : Str}
  {v : Value} {slot : Slot}

theorem loadFields_cons_ok (hkey : (key == "position") = false) (hv : loadSlot v = .ok slot)
    (hrest : loadFields fields = .ok slots) :
    loadFields ((key, v) :: fields) = .ok ((key, slot) :: slots) := by
  rw [loadFields_cons hkey, hv, hrest]
  rfl

/-- The slots of an object that a node was saved as. -/
def packSlots (kind : Kind) (slots : Slots) (p : Option Position) : Slots :=
  (("node_type" : Str), .plain (.str kind.typeName)) :: slots ++
    [(("position" : Str), .plain (Position.toValue p))]

theorem chars_beq (a b : String) : (Str.chars a == Str.chars b) = (a == b) := by
  rw [Bool.eq_iff_iff, beq_iff_eq, beq_iff_eq, Str.chars.injEq]

theorem kind_packSlots : (packSlots kind slots p).kind = .ok kind := by
  simp [Slots.kind, packSlots, Slots.get?, Kind.ofTypeName?_typeName]

theorem position_packSlots (h : slots.lookup ("position" : Str) = none) :
    (packSlots kind slots p).position = .ok p := by
  have hget : (packSlots kind slots p).get? "position" = some (.plain (Position.toValue p)) := by
    simp [packSlots, Slots.get?, List.lookup_cons, List.lookup_append, h, chars_beq]
  unfold Slots.position
  rw [hget]
  cases p <;> rfl

theorem ofValue_pack {make : Option Position → Node} (hfields : loadFields fields = .ok slots)
    (hposition : slots.lookup ("position" : Str) = none)
    (hmake : ofSlots (packSlots kind slots p) kind = .ok make) :
    ofValue (pack kind fields p) = .ok (make p) := by
  have hload : loadFields ((("node_type" : Str), .str kind.typeName) :: fields ++
      [(("position" : Str), Position.toValue p)]) = .ok (packSlots kind slots p) := by
    have hkind : loadFields ((("node_type" : Str), .str kind.typeName) :: fields) =
        .ok ((("node_type" : Str), .plain (.str kind.typeName)) :: slots) :=
      loadFields_cons_ok rfl rfl hfields
    rw [loadFields_append, hkind]
    rfl
  rw [pack, ofValue_object, loadObject, hload]
  simp only [bind, Except.bind, assemble, kind_packSlots, hmake, position_packSlots hposition]
  rfl

end Pack

/-- The data of a tree loads as the tree. -/
theorem ofValue_toValue {n : Node} (h : n.Everywhere Storable) : ofValue n.toValue = .ok n := by
  induction h with
  | @intro n here below ih =>
    have saved : ∀ m ∈ n.subnodes, loadSlot m.toValue = .ok (.node m.toValue m) :=
      fun m hm => loadSlot_toValue (ih m hm)
    have savedAll : ∀ ms, ms ⊆ n.subnodes →
        loadSlot (.list (toValues ms)) = .ok (.list (.list (toValues ms)) (ms.map some)) :=
      fun ms hms => loadSlot_toValues fun m hm => ih m (hms hm)
    have savedOptional : ∀ content : Option Node, content.toList ⊆ n.subnodes →
        ∃ slot, loadSlot (toOptionalValue content) = .ok slot ∧
          slot.toOptionalNode = .ok content :=
      fun content hc => loadSlot_toOptionalValue fun m hm => ih m (hc (Option.mem_toList.mpr hm))
    cases n with
    | root cs p =>
      have hcs := savedAll cs (List.Subset.refl _)
      refine ofValue_pack (loadFields_cons_ok rfl hcs rfl) rfl ?_
      exact bind_ok (nodes_ok rfl) rfl
    | tag name as flags c cs p =>
      obtain ⟨nameSlot, hname, rfl⟩ := here.slot List.mem_cons_self
      have has := savedAll as (by simp [subnodes])
      obtain ⟨slot, hslot, hc⟩ := savedOptional c (by simp [subnodes])
      have hcs := savedAll cs (by simp [subnodes])
      refine ofValue_pack (loadFields_cons_ok rfl hname (loadFields_cons_ok rfl has
        (loadFields_cons_ok rfl rfl (loadFields_cons_ok rfl hslot
          (loadFields_cons_ok rfl hcs rfl))))) rfl ?_
      exact bind_ok (value_ok rfl) (bind_ok (nodes_ok rfl) (bind_ok (flags_ok rfl)
        (bind_ok (optionalNode_ok rfl hc) (bind_ok (nodes_ok rfl) rfl))))
    | tagAttribute name value p =>
      have hname := saved name List.mem_cons_self
      obtain ⟨slot, hslot, hvalue⟩ := savedOptional value (List.subset_cons_self _ _)
      refine ofValue_pack (loadFields_cons_ok rfl hname (loadFields_cons_ok rfl hslot rfl)) rfl ?_
      exact bind_ok (node_ok rfl) (bind_ok (optionalNode_ok rfl hvalue) rfl)
    | tagAttributeList value p | tagAttributeInterpolation value p =>
      have hvalue := saved value List.mem_cons_self
      refine ofValue_pack (loadFields_cons_ok rfl hvalue rfl) rfl ?_
      exact bind_ok (node_ok rfl) rfl
    | doctype id options p =>
      obtain ⟨idSlot, hid, rfl⟩ := here.slot List.mem_cons_self
      obtain ⟨optionsSlot, hoptions, rfl⟩ := here.slot (List.mem_cons_of_mem _ List.mem_cons_self)
      refine ofValue_pack (loadFields_cons_ok rfl hid (loadFields_cons_ok rfl hoptions rfl)) rfl ?_
      exact bind_ok (value_ok rfl) (bind_ok (value_ok rfl) rfl)
    | comment rendered condition c cs p =>
      obtain ⟨renderedSlot, hrendered, rfl⟩ := here.slot List.mem_cons_self
      obtain ⟨conditionSlot, hcondition, rfl⟩ :=
        here.slot (List.mem_cons_of_mem _ List.mem_cons_self)
      obtain ⟨slot, hslot, hc⟩ := savedOptional c (by simp [subnodes])
      have hcs := savedAll cs (by simp [subnodes])
      refine ofValue_pack (loadFields_cons_ok rfl hrendered (loadFields_cons_ok rfl hcondition
        (loadFields_cons_ok rfl hslot (loadFields_cons_ok rfl hcs rfl)))) rfl ?_
      exact bind_ok (value_ok rfl) (bind_ok (value_ok rfl) (bind_ok (optionalNode_ok rfl hc)
        (bind_ok (nodes_ok rfl) rfl)))
    | text content p =>
      obtain ⟨slot, hcontent, rfl⟩ := here.slot List.mem_cons_self
      refine ofValue_pack (loadFields_cons_ok rfl hcontent rfl) rfl ?_
      exact bind_ok (value_ok rfl) rfl
    | interpolatedString cs e p =>
      have hcs := savedAll cs (List.Subset.refl _)
      refine ofValue_pack (loadFields_cons_ok rfl hcs (loadFields_cons_ok rfl rfl rfl)) rfl ?_
      exact bind_ok (nodes_ok rfl) (bind_ok (escaping_ok rfl) rfl)
    | insert content e preserve p =>
      obtain ⟨slot, hcontent, rfl⟩ := here.slot List.mem_cons_self
      obtain ⟨preserveSlot, hpreserve, rfl⟩ :=
        here.slot (List.mem_cons_of_mem _ List.mem_cons_self)
      refine ofValue_pack (loadFields_cons_ok rfl hcontent (loadFields_cons_ok rfl rfl
        (loadFields_cons_ok rfl hpreserve rfl))) rfl ?_
      exact bind_ok (value_ok rfl) (bind_ok (escaping_ok rfl) (bind_ok (value_ok rfl) rfl))
    | run content cs p | filter content cs p =>
      obtain ⟨slot, hcontent, rfl⟩ := here.slot List.mem_cons_self
      have hcs := savedAll cs (List.Subset.refl _)
      refine ofValue_pack (loadFields_cons_ok rfl hcontent (loadFields_cons_ok rfl hcs rfl)) rfl ?_
      exact bind_ok (value_ok rfl) (bind_ok (nodes_ok rfl) rfl)
    | statement content p =>
      have hcontent := saved content List.mem_cons_self
      refine ofValue_pack (loadFields_cons_ok rfl hcontent rfl) rfl ?_
      exact bind_ok (node_ok rfl) rfl
    | objectRefClass object qualifier p | objectRefId object qualifier p =>
      have hobject := saved object List.mem_cons_self
      obtain ⟨slot, hslot, hqualifier⟩ := savedOptional qualifier (List.subset_cons_self _ _)
      refine ofValue_pack (loadFields_cons_ok rfl hobject (loadFields_cons_ok rfl hslot rfl)) rfl ?_
      exact bind_ok (node_ok rfl) (bind_ok (optionalNode_ok rfl hqualifier) rfl)

/-- The nodes that a slot gives. -/
def slotNodes : Slot → List Node
  | .plain _ => []
  | .node _ n => [n]
  | .list _ items => items.reduceOption

/-- What the fields of an object were loaded as: data that can be loaded once more, and nodes that
can be stored. -/
def Loaded (slots : Slots) : Prop :=
  ∀ (key : Str) slot, key ≠ "position" → slots.get? key = some slot →
    loadSlot slot.value = .ok slot ∧ ∀ n ∈ slotNodes slot, n.Everywhere Storable

namespace Loaded
variable {slots : Slots} {key : String} {kind : Kind} {make : Option Position → Node}

theorem slot {slot : Slot} (h : Loaded slots) (hkey : key ≠ "position")
    (hfield : slots.field key = .ok slot) :
    loadSlot slot.value = .ok slot ∧ ∀ n ∈ slotNodes slot, n.Everywhere Storable :=
  h key slot (by simpa using hkey) (get?_of_field hfield)

theorem value {v : Value} (h : Loaded slots) (hkey : key ≠ "position")
    (hv : slots.value key = .ok v) : ∃ slot, loadSlot v = .ok slot := by
  obtain ⟨slot, hfield, hvalue⟩ := exists_of_bind_ok hv
  cases hvalue
  exact ⟨slot, (h.slot hkey hfield).1⟩

theorem node {n : Node} (h : Loaded slots) (hkey : key ≠ "position")
    (hn : slots.node key = .ok n) : n.Everywhere Storable := by
  obtain ⟨slot, hfield, hnode⟩ := exists_of_bind_ok hn
  cases slot with
  | node v m =>
    cases hnode
    exact (h.slot hkey hfield).2 n List.mem_cons_self
  | plain v => cases hnode
  | list v items => cases hnode

theorem optionalNode {content : Option Node} (h : Loaded slots)
    (hkey : key ≠ "position") (hcontent : slots.optionalNode key = .ok content) :
    ∀ n ∈ content.toList, n.Everywhere Storable := by
  obtain ⟨slot, hfield, hnode⟩ := exists_of_bind_ok hcontent
  cases slot with
  | node v m =>
    cases hnode
    exact (h.slot hkey hfield).2
  | plain v =>
    cases v with
    | null =>
      cases hnode
      simp
    | _ => cases hnode
  | list v items => cases hnode

theorem mem_of_toNodes {items : List (Option Node)} {ns : List Node}
    (h : items.mapM Slot.itemToNode = .ok ns) : ns = items.reduceOption := by
  induction items generalizing ns with
  | nil =>
    cases h
    rfl
  | cons item items ih =>
    rw [List.mapM_cons] at h
    obtain ⟨n, hitem, hrest⟩ := exists_of_bind_ok h
    obtain ⟨ms, hitems, hns⟩ := exists_of_bind_ok hrest
    cases hns
    cases item with
    | none => cases hitem
    | some m =>
      cases hitem
      rw [ih hitems]
      rfl

theorem nodes {ns : List Node} (h : Loaded slots) (hkey : key ≠ "position")
    (hns : slots.nodes key = .ok ns) : ∀ n ∈ ns, n.Everywhere Storable := by
  obtain ⟨slot, hfield, hnodes⟩ := exists_of_bind_ok hns
  cases slot with
  | node v m => cases hnodes
  | list v items =>
    rw [mem_of_toNodes hnodes]
    exact (h.slot hkey hfield).2
  | plain v =>
    cases v with
    | str s =>
      rw [Slot.toNodes] at hnodes
      split at hnodes <;> cases hnodes
      simp
    | _ => cases hnodes

/-- A node whose own objects are loaded can be stored. -/
theorem everywhere_of_ofSlots (h : Loaded slots) (hmake : ofSlots slots kind = .ok make)
    (p : Option Position) : (make p).Everywhere Storable := by
  cases kind with
  | root =>
    obtain ⟨cs, hcs, hmake⟩ := exists_of_bind_ok hmake
    cases hmake
    exact .intro (by simp [Storable, plainFields]) (h.nodes (by decide) hcs)
  | tag =>
    obtain ⟨name, hname, hmake⟩ := exists_of_bind_ok hmake
    obtain ⟨as, has, hmake⟩ := exists_of_bind_ok hmake
    obtain ⟨flags, -, hmake⟩ := exists_of_bind_ok hmake
    obtain ⟨c, hc, hmake⟩ := exists_of_bind_ok hmake
    obtain ⟨cs, hcs, hmake⟩ := exists_of_bind_ok hmake
    cases hmake
    refine .intro (by simpa [Storable, plainFields] using h.value (by decide) hname) ?_
    intro m hm
    obtain (hm | hm) | hm : (m ∈ as ∨ m ∈ c.toList) ∨ m ∈ cs := by
      simpa only [subnodes, List.mem_append] using hm
    · exact h.nodes (by decide) has m hm
    · exact h.optionalNode (by decide) hc m hm
    · exact h.nodes (by decide) hcs m hm
  | tagAttribute =>
    obtain ⟨name, hname, hmake⟩ := exists_of_bind_ok hmake
    obtain ⟨value, hvalue, hmake⟩ := exists_of_bind_ok hmake
    cases hmake
    exact .intro (by simp [Storable, plainFields])
      (List.forall_mem_cons.mpr ⟨h.node (by decide) hname, h.optionalNode (by decide) hvalue⟩)
  | tagAttributeList | tagAttributeInterpolation | statement =>
    obtain ⟨value, hvalue, hmake⟩ := exists_of_bind_ok hmake
    cases hmake
    exact .intro (by simp [Storable, plainFields])
      (List.forall_mem_singleton.mpr (h.node (by decide) hvalue))
  | doctype =>
    obtain ⟨id, hid, hmake⟩ := exists_of_bind_ok hmake
    obtain ⟨options, hoptions, hmake⟩ := exists_of_bind_ok hmake
    cases hmake
    refine .leaf ?_ rfl
    simpa [Storable, plainFields] using ⟨h.value (by decide) hid, h.value (by decide) hoptions⟩
  | comment =>
    obtain ⟨rendered, hrendered, hmake⟩ := exists_of_bind_ok hmake
    obtain ⟨condition, hcondition, hmake⟩ := exists_of_bind_ok hmake
    obtain ⟨c, hc, hmake⟩ := exists_of_bind_ok hmake
    obtain ⟨cs, hcs, hmake⟩ := exists_of_bind_ok hmake
    cases hmake
    refine .intro ?_ ?_
    · simpa [Storable, plainFields] using
        ⟨h.value (by decide) hrendered, h.value (by decide) hcondition⟩
    · intro m hm
      obtain hm | hm := List.mem_append.mp hm
      · exact h.optionalNode (by decide) hc m hm
      · exact h.nodes (by decide) hcs m hm
  | text =>
    obtain ⟨content, hcontent, hmake⟩ := exists_of_bind_ok hmake
    cases hmake
    exact .leaf (by simpa [Storable, plainFields] using h.value (by decide) hcontent) rfl
  | interpolatedString =>
    obtain ⟨cs, hcs, hmake⟩ := exists_of_bind_ok hmake
    obtain ⟨e, -, hmake⟩ := exists_of_bind_ok hmake
    cases hmake
    exact .intro (by simp [Storable, plainFields]) (h.nodes (by decide) hcs)
  | insert =>
    obtain ⟨content, hcontent, hmake⟩ := exists_of_bind_ok hmake
    obtain ⟨e, -, hmake⟩ := exists_of_bind_ok hmake
    obtain ⟨preserve, hpreserve, hmake⟩ := exists_of_bind_ok hmake
    cases hmake
    refine .leaf ?_ rfl
    simpa [Storable, plainFields] using
      ⟨h.value (by decide) hcontent, h.value (by decide) hpreserve⟩
  | run | filter =>
    obtain ⟨content, hcontent, hmake⟩ := exists_of_bind_ok hmake
    obtain ⟨cs, hcs, hmake⟩ := exists_of_bind_ok hmake
    cases hmake
    exact .intro (by simpa [Storable, plainFields] using h.value (by decide) hcontent)
      (h.nodes (by decide) hcs)
  | objectRefClass | objectRefId =>
    obtain ⟨object, hobject, hmake⟩ := exists_of_bind_ok hmake
    obtain ⟨qualifier, hqualifier, hmake⟩ := exists_of_bind_ok hmake
    cases hmake
    exact .intro (by simp [Storable, plainFields])
      (List.forall_mem_cons.mpr ⟨h.node (by decide) hobject,
        h.optionalNode (by decide) hqualifier⟩)

theorem everywhere_of_assemble {n : Node} (h : Loaded slots) (hn : assemble slots = .ok n) :
    n.Everywhere Storable := by
  obtain ⟨kind, -, hn⟩ := exists_of_bind_ok hn
  obtain ⟨make, hmake, hn⟩ := exists_of_bind_ok hn
  obtain ⟨p, -, hn⟩ := exists_of_bind_ok hn
  cases hn
  exact h.everywhere_of_ofSlots hmake p

theorem cons {slot : Slot} {key : Str} (h : Loaded slots)
    (hslot : key ≠ "position" →
      loadSlot slot.value = .ok slot ∧ ∀ n ∈ slotNodes slot, n.Everywhere Storable) :
    Loaded ((key, slot) :: slots) := by
  intro k other hk hget
  rw [Slots.get?, List.lookup_cons] at hget
  cases hkey : k == key with
  | true =>
    obtain rfl : k = key := by simpa using hkey
    rw [hkey] at hget
    cases hget
    exact hslot hk
  | false =>
    rw [hkey] at hget
    exact h k other hk hget

end Loaded

mutual

theorem everywhere_of_loadSlot : ∀ {v : Value} {slot : Slot}, loadSlot v = .ok slot →
    ∀ n ∈ slotNodes slot, n.Everywhere Storable
  | .object fields, slot, h => by
    rw [loadSlot] at h
    obtain ⟨slots, hslots, h⟩ := exists_of_bind_ok h
    obtain ⟨n, hn, h⟩ := exists_of_bind_ok h
    cases h
    have hloaded := loaded_of_loadFields hslots
    exact List.forall_mem_singleton.mpr (hloaded.everywhere_of_assemble hn)
  | .list items, slot, h => by
    rw [loadSlot] at h
    obtain ⟨slots, hslots, h⟩ := exists_of_bind_ok h
    cases h
    exact everywhere_of_loadItems hslots
  | .null, slot, h | .bool _, slot, h | .int _, slot, h | .real _, slot, h | .str _, slot, h => by
    cases h
    simp [slotNodes]

theorem everywhere_of_loadItems : ∀ {items : List Value} {slots : List (Option Node)},
    loadItems items = .ok slots → ∀ n ∈ slots.reduceOption, n.Everywhere Storable
  | [], slots, h => by
    cases h
    intro n hn
    cases hn
  | .object fields :: rest, slots, h => by
    rw [loadItems] at h
    obtain ⟨inner, hinner, h⟩ := exists_of_bind_ok h
    obtain ⟨n, hn, h⟩ := exists_of_bind_ok h
    obtain ⟨slots, hslots, h⟩ := exists_of_bind_ok h
    cases h
    have hloaded := loaded_of_loadFields hinner
    exact List.forall_mem_cons.mpr
      ⟨hloaded.everywhere_of_assemble hn, everywhere_of_loadItems hslots⟩
  | .list _ :: rest, slots, h | .null :: rest, slots, h | .bool _ :: rest, slots, h
  | .int _ :: rest, slots, h | .real _ :: rest, slots, h | .str _ :: rest, slots, h => by
    obtain ⟨tail, htail, h⟩ := exists_of_bind_ok h
    cases h
    have hnodes := everywhere_of_loadItems htail
    exact hnodes

theorem loaded_of_loadFields : ∀ {fields : Fields} {slots : Slots},
    loadFields fields = .ok slots → Loaded slots
  | [], slots, h => by
    cases h
    intro key slot _ hget
    cases hget
  | (key, v) :: rest, slots, h => by
    cases hkey : key == "position" with
    | true =>
      rw [loadFields, hkey, if_pos rfl] at h
      obtain ⟨slots, hslots, h⟩ := exists_of_bind_ok h
      cases h
      have hrest := loaded_of_loadFields hslots
      exact hrest.cons fun hne => absurd (by simpa using hkey) hne
    | false =>
      rw [loadFields_cons hkey] at h
      obtain ⟨slot, hslot, h⟩ := exists_of_bind_ok h
      obtain ⟨slots, hslots, h⟩ := exists_of_bind_ok h
      cases h
      have hrest := loaded_of_loadFields hslots
      have hvalue := value_of_loadSlot hslot
      have hnodes := everywhere_of_loadSlot hslot
      exact hrest.cons fun _ => ⟨by rw [hvalue, hslot], hnodes⟩

end

/-- A tree that was loaded can be stored. -/
theorem everywhere_of_ofValue {d : Value} {n : Node} (h : ofValue d = .ok n) :
    n.Everywhere Storable := by
  cases d with
  | object fields =>
    rw [ofValue_object] at h
    obtain ⟨slots, hslots, hn⟩ := exists_of_bind_ok h
    exact (loaded_of_loadFields hslots).everywhere_of_assemble hn
  | _ => cases h

/-- Storing and loading undo each other: the data of a tree with plain fields loads as the tree, and
what was loaded from any data, whatever its plain fields, unused fields and flags were, is stored as
data that loads as the same tree and is stored as the same data. -/
theorem ofValue_toValue_of_ofValue :
    (∀ t : Node, t.Everywhere Plain → ofValue t.toValue = .ok t) ∧
      (∀ (d : Value) (n : Node), ofValue d = .ok n → ofValue n.toValue = .ok n) ∧
      ∀ d e : Value, (ofValue d).map toValue = .ok e → (ofValue e).map toValue = .ok e := by
  have loaded : ∀ (d : Value) (n : Node), ofValue d = .ok n → ofValue n.toValue = .ok n :=
    fun d n h => ofValue_toValue (everywhere_of_ofValue h)
  refine ⟨fun t h => ofValue_toValue (h.imp fun _ => Plain.storable), loaded, ?_⟩
  intro d e h
  cases hn : ofValue d with
  | error err =>
    rw [hn] at h
    cases h
  | ok n =>
    rw [hn] at h
    cases h
    rw [loaded d n hn]
    rfl

/-- A tag whose name is a node's object, whose attributes are the empty text, whose flags are below
zero and that has a field too many. -/
def oddData : Value :=
  .object [("node_type", .str "Tag"), ("extra", .bool true), ("flags", .int (-2)),
    ("name", .object [("node_type", .str "Text"), ("content", .int 5)]), ("attributes", .str ""),
    ("content", .null),
    ("children", .list [.object [("node_type", .str "Text"), ("content", .list [.null])]])]

def oddTag : Node :=
  .tag (.object [("node_type", .str "Text"), ("content", .int 5)]) [] 6 none
    [.text (.list [.null]) none] none

theorem ofValue_oddData : ofValue oddData = .ok oddTag := by
  rw [oddData, ofValue_object]
  rfl

theorem oddData_stored_once : Everywhere Plain (.text (.str "a") none) ∧
    ofValue (toValue (.text (.str "a") none)) = .ok (.text (.str "a") none) ∧
    ofValue oddData = .ok oddTag ∧ ofValue oddTag.toValue = .ok oddTag ∧
    (ofValue oddData).map toValue = .ok oddTag.toValue ∧
    (ofValue oddTag.toValue).map toValue = .ok oddTag.toValue := by
  have hplain : Everywhere Plain (.text (.str "a") none) :=
    .leaf (by simp [Plain, plainFields, Value.objects]) rfl
  have hmap : (ofValue oddData).map toValue = .ok oddTag.toValue := by
    rw [ofValue_oddData]
    rfl
  obtain ⟨stored, loaded, stable⟩ := ofValue_toValue_of_ofValue
  exact ⟨hplain, stored _ hplain, ofValue_oddData, loaded _ _ ofValue_oddData, hmap,
    stable _ _ hmap⟩

end TemplateTree.Node
