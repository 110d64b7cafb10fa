import Mathlib.Tactic.Common
import TemplateTree.Node.Load

/-!
# Loading by recursion

`loadObject` loads an object after the objects in its fields, from the first field to the last, and
stops at the first that fails. The work list of `schedule` and the table of `build` come to the same
result: on a list of objects that wait they do what loading one after the other does, because no two
of them stand in the same place or in each other.
-/

set_option autoImplicit false

namespace TemplateTree.Node

open Value (Fields)

mutual

/-- The slot of a field, with the objects in it loaded. -/
def loadSlot : Value → Except LoadError Slot
  | .object fields => do
    return .node (.object fields) (← assemble (← loadFields fields))
  | .list items => do
    return .list (.list items) (← loadItems items)
  | v => .ok (.plain v)

def loadItems : List Value → Except LoadError (List (Option Node))
  | [] => .ok []
  | .object fields :: rest => do
    let n ← assemble (← loadFields fields)
    return some n :: (← loadItems rest)
  | _ :: rest => do
    return none :: (← loadItems rest)

def loadFields : List (Str × Value) → Except LoadError Slots
  | [] => .ok []
  | (key, v) :: rest =>
    if key == "position" then do
      return (key, .plain v) :: (← loadFields rest)
    else do
      let slot ← loadSlot v
      return (key, slot) :: (← loadFields rest)

end

def loadObject (fields : Fields) : Except LoadError Node := do
  assemble (← loadFields fields)

theorem loadSlot_object (fields : Fields) : loadSlot (.object fields) =
    loadObject fields >>= fun n => .ok (.node (.object fields) n) := by
  rw [loadSlot, loadObject, bind_assoc]
  rfl

theorem loadItems_object (fields : Fields) (rest : List Value) :
    loadItems (.object fields :: rest) = loadObject fields >>= fun n =>
      loadItems rest >>= fun slots => .ok (some n :: slots) := by
  rw [loadItems, loadObject, bind_assoc]
  rfl

theorem loadFields_cons {key : Str} (h : (key == "position") = false) (v : Value)
    (rest : Fields) : loadFields ((key, v) :: rest) = loadSlot v >>= fun slot =>
      loadFields rest >>= fun slots => .ok ((key, slot) :: slots) := by
  rw [loadFields, h]
  rfl

theorem loadFields_append (fields others : Fields) :
    loadFields (fields ++ others) = loadFields fields >>= fun slots =>
      loadFields others >>= fun more => .ok (slots ++ more) := by
  induction fields with
  | nil => cases hothers : loadFields others <;> simp [loadFields, hothers, bind, Except.bind]
  | cons field rest ih =>
    obtain ⟨key, v⟩ := field
    rw [List.cons_append]
    cases hkey : key == "position" with
    | true =>
      simp only [loadFields, hkey, if_true, ih]
      cases loadFields rest with
      | error e => rfl
      | ok slots => cases loadFields others <;> rfl
    | false =>
      simp only [loadFields_cons hkey, ih]
      cases loadSlot v with
      | error e => rfl
      | ok slot =>
        cases loadFields rest with
        | error e => rfl
        | ok slots => cases loadFields others <;> rfl

section Recursion
variable {items : List Value} {ns : List Node}

theorem length_of_mapM_ok {α β ε : Type} {f : α → Except ε β} {as : List α} {bs : List β}
    (h : as.mapM f = .ok bs) : bs.length = as.length := by
  induction as generalizing bs with
  | nil =>
    rw [List.mapM_nil] at h
    cases h
    rfl
  | cons a as ih =>
    rw [List.mapM_cons] at h
    cases ha : f a with
    | error e => simp [ha, bind, Except.bind] at h
    | ok b =>
      cases has : as.mapM f with
      | error e => simp [ha, has, bind, Except.bind] at h
      | ok cs =>
        simp only [ha, has, bind, Except.bind, pure, Except.pure, Except.ok.injEq] at h
        rw [← h, List.length_cons, List.length_cons, ih has]

theorem fillItems_append (h : ns.length = (objectItems items).length) (ms : List Node) :
    fillItems items (ns ++ ms) = ((fillItems items ns).1, ms) := by
  induction items generalizing ns with
  | nil =>
    obtain rfl := List.length_eq_zero_iff.mp h
    rfl
  | cons v rest ih =>
    cases v with
    | object inner =>
      cases ns with
      | nil => simp [objectItems] at h
      | cons n ns =>
        have hrest : ns.length = (objectItems rest).length := by simpa [objectItems] using h
        simp only [List.cons_append, fillItems, ih hrest]
    | _ =>
      have hrest : ns.length = (objectItems rest).length := by simpa [objectItems] using h
      simp only [fillItems, ih hrest]

/-- The nodes for the items of a list, loaded one after the other and then handed out. -/
theorem loadItems_eq (items : List Value) :
    loadItems items = (objectItems items).mapM loadObject >>= fun ns =>
      .ok (fillItems items ns).1 := by
  induction items with
  | nil => rfl
  | cons v rest ih =>
    cases v with
    | object inner =>
      rw [show objectItems (.object inner :: rest) = inner :: objectItems rest from rfl,
        List.mapM_cons, loadItems_object, ih]
      cases loadObject inner with
      | error e => rfl
      | ok n => cases (objectItems rest).mapM loadObject <;> rfl
    | _ =>
      rw [loadItems, ih]
      · rw [show objectItems (_ :: rest) = objectItems rest from rfl]
        cases (objectItems rest).mapM loadObject <;> rfl
      · simp

theorem nested_cons {key : Str} (h : (key == "position") = false) (v : Value) (rest : Fields) :
    nested ((key, v) :: rest) = (match v with
      | .object inner => [inner]
      | .list items => objectItems items
      | _ => []) ++ nested rest := by
  rw [nested, List.flatMap_cons]
  simp only [h, Bool.false_eq_true, if_false]
  rfl

/-- The objects in the fields, loaded one after the other and then handed out. -/
theorem loadFields_eq (fields : Fields) :
    loadFields fields = (nested fields).mapM loadObject >>= fun ns => .ok (fill fields ns) := by
  induction fields with
  | nil => rfl
  | cons field rest ih =>
    obtain ⟨key, v⟩ := field
    cases hkey : key == "position" with
    | true =>
      have hnested : nested ((key, v) :: rest) = nested rest := by
        rw [nested, List.flatMap_cons]
        simp only [hkey, if_true, List.nil_append]
        rfl
      rw [loadFields, hnested, ih]
      simp only [hkey, if_true, fill]
      cases (nested rest).mapM loadObject <;> rfl
    | false =>
      rw [loadFields_cons hkey, nested_cons hkey, ih]
      cases v with
      | object inner =>
        rw [loadSlot_object, List.singleton_append, List.mapM_cons]
        cases loadObject inner with
        | error e => rfl
        | ok n =>
          cases (nested rest).mapM loadObject with
          | error e => rfl
          | ok ns => simp [fill, hkey, bind, Except.bind, pure, Except.pure]
      | list items =>
        rw [loadSlot, loadItems_eq, List.mapM_append]
        cases hitems : (objectItems items).mapM loadObject with
        | error e => rfl
        | ok ns =>
          cases (nested rest).mapM loadObject with
          | error e => rfl
          | ok ms =>
            simp [fill, hkey, bind, Except.bind, pure, Except.pure,
              fillItems_append (length_of_mapM_ok hitems)]
      | _ =>
        rw [loadSlot, List.nil_append]
        · cases (nested rest).mapM loadObject <;> simp [fill, hkey, bind, Except.bind]
        all_goals simp

theorem loadObject_eq (fields : Fields) :
    loadObject fields = (nested fields).mapM loadObject >>= fun ns => assemble (fill fields ns) := by
  rw [loadObject, loadFields_eq, bind_assoc]
  rfl

end Recursion

namespace Occurrence

def load (o : Occurrence) : Except LoadError Node := loadObject o.fields

/-- Objects of which neither is the other one or holds it. -/
def Apart (o o' : Occurrence) : Prop := ¬ o.place <:+ o'.place ∧ ¬ o'.place <:+ o.place

variable {o o' inner : Occurrence}

theorem Apart.symm (h : Apart o o') : Apart o' o := ⟨h.2, h.1⟩

theorem mapM_load_held (o : Occurrence) : o.held.mapM load = (nested o.fields).mapM loadObject := by
  rw [← o.map_fields_held, List.mapM_map]
  rfl

theorem exists_of_mem_held (h : inner ∈ o.held) : ∃ k, inner.place = k :: o.place := by
  obtain ⟨k, _, rfl⟩ := List.mem_mapIdx.mp h
  exact ⟨k, rfl⟩

theorem suffix_of_held {place : List Nat} (hinner : inner ∈ o.held) (h : inner.place <:+ place) :
    o.place <:+ place := by
  obtain ⟨k, hk⟩ := exists_of_mem_held hinner
  rw [hk] at h
  exact (List.suffix_cons k o.place).trans h

theorem Apart.held (h : Apart o o') (hinner : inner ∈ o.held) : Apart inner o' := by
  refine ⟨fun hsuffix => h.1 (suffix_of_held hinner hsuffix), fun hsuffix => ?_⟩
  obtain ⟨k, hk⟩ := exists_of_mem_held hinner
  rw [hk, List.suffix_cons_iff] at hsuffix
  rcases hsuffix with heq | hsuffix
  · exact h.1 (heq ▸ List.suffix_cons k o.place)
  · exact h.2 hsuffix

theorem not_suffix_cons {place : List Nat} {k k' : Nat} (h : k ≠ k') :
    ¬ k :: place <:+ k' :: place := by
  intro hsuffix
  exact h (List.cons.inj (hsuffix.eq_of_length rfl)).1

theorem pairwise_held (o : Occurrence) : o.held.Pairwise Apart := by
  rw [List.pairwise_iff_getElem]
  intro i j hi hj hlt
  simp only [Occurrence.held, List.getElem_mapIdx]
  exact ⟨not_suffix_cons (by omega), not_suffix_cons (by omega)⟩

/-- What an object holds is apart from what waits behind the object. -/
theorem pairwise_held_append {work : List Occurrence} (h : (o :: work).Pairwise Apart) :
    (o.held.reverse ++ work).Pairwise Apart := by
  obtain ⟨hhere, hwork⟩ := List.pairwise_cons.mp h
  refine List.pairwise_append.mpr ⟨?_, hwork, fun inner hinner o' ho' => ?_⟩
  · exact List.pairwise_reverse.mpr (o.pairwise_held.imp Apart.symm)
  · exact (hhere o' ho').held (List.mem_reverse.mp hinner)

end Occurrence

section Table
open Occurrence

/-- A table that knows the nodes `ns` of objects, and of places away from the objects what another
table knows. -/
structure Knows (os : List Occurrence) (ns : List Node) (before built : Built) : Prop where
  nodes : os.map (fun o => built.lookup o.place) = ns.map some
  others (place : List Nat) : (∀ o ∈ os, ¬ o.place <:+ place) →
    built.lookup place = before.lookup place

variable {os os' : List Occurrence} {ns ms : List Node} {before built : Built} {o : Occurrence}
  {n : Node}

theorem build_eq (hms : o.held.mapM load = .ok ms)
    (hknown : o.held.map (fun inner => built.lookup inner.place) = ms.map some) :
    build built o = o.load >>= fun n => .ok ((o.place, n) :: built) := by
  have hheld : (o.held.filterMap fun inner => built.lookup inner.place) = ms := by
    have hids := congrArg (List.filterMap id) hknown
    simpa [List.filterMap_map, Function.comp_def] using hids
  rw [build, load, loadObject_eq, ← mapM_load_held, hms, hheld]
  rfl

theorem Knows.nodes_append (h : Knows (os ++ os') (ns ++ ms) before built)
    (hlength : ns.length = os.length) :
    os.map (fun o => built.lookup o.place) = ns.map some ∧
      os'.map (fun o => built.lookup o.place) = ms.map some := by
  have hnodes := h.nodes
  rw [List.map_append, List.map_append] at hnodes
  exact List.append_inj hnodes (by rw [List.length_map, List.length_map, hlength])

theorem lookup_cons_of_ne {place place' : List Nat} (h : place ≠ place') (n : Node) :
    List.lookup place ((place', n) :: built) = built.lookup place := by
  rw [List.lookup_cons, beq_eq_false_iff_ne.mpr h]

/-- An object is finished when the objects that it holds are. -/
theorem Knows.finish (h : Knows (os ++ o.held) (ns ++ ms) before built)
    (hlength : ns.length = os.length) (hapart : ∀ o' ∈ os, Apart o o') (n : Node) :
    Knows (os ++ [o]) (ns ++ [n]) before ((o.place, n) :: built) where
  nodes := by
    have hkept : os.map (fun o' => List.lookup o'.place ((o.place, n) :: built)) =
        os.map (fun o' => built.lookup o'.place) := by
      refine List.map_congr_left fun o' ho' => lookup_cons_of_ne (fun heq => ?_) n
      exact (hapart o' ho').1 (heq ▸ List.suffix_refl _)
    rw [List.map_append, hkept, (h.nodes_append hlength).1]
    simp
  others := by
    intro place hplace
    have hhere : ¬ o.place <:+ place := hplace o (by simp)
    have hne : place ≠ o.place := by
      rintro rfl
      exact hhere (List.suffix_refl _)
    rw [lookup_cons_of_ne hne]
    refine h.others place fun o' ho' => ?_
    rcases List.mem_append.mp ho' with ho' | ho'
    · exact hplace o' (List.mem_append_left _ ho')
    · exact fun hsuffix => hhere (suffix_of_held ho' hsuffix)

/-- What waits is loaded from the last to the first, each object after the objects in it. -/
theorem foldlM_schedule (work done : List Occurrence) (before : Built)
    (hapart : work.Pairwise Apart) :
    match work.reverse.mapM load with
    | .error e => (schedule work done).foldlM build before = .error e
    | .ok ns => ∃ built, (schedule work done).foldlM build before = done.foldlM build built ∧
      Knows work.reverse ns before built := by
  fun_induction schedule work done generalizing before with
  | case1 done => exact ⟨before, rfl, rfl, fun _ _ => rfl⟩
  | case2 o work done ih =>
    have hih := ih before (pairwise_held_append hapart)
    rw [List.reverse_append, List.reverse_reverse, List.mapM_append] at hih
    rw [List.reverse_cons, List.mapM_append]
    cases hns : work.reverse.mapM load with
    | error e =>
      rw [hns] at hih
      exact hih
    | ok ns =>
      have hlength := length_of_mapM_ok hns
      have hapart' : ∀ o' ∈ work.reverse, Apart o o' := fun o' ho' =>
        List.rel_of_pairwise_cons hapart (List.mem_reverse.mp ho')
      cases hms : o.held.mapM load with
      | error e =>
        -- An object fails as what it holds does, so its own turn never comes.
        have hload : o.load = .error e := by
          rw [load, loadObject_eq, ← mapM_load_held, hms]
          rfl
        rw [hns, hms] at hih
        rw [List.mapM_cons, List.mapM_nil, hload]
        exact hih
      | ok ms =>
        rw [hns, hms] at hih
        obtain ⟨built, hrun, hknows⟩ := hih
        have hbuild := build_eq hms (hknows.nodes_append hlength).2
        rw [hrun, List.foldlM_cons, hbuild, List.mapM_cons, List.mapM_nil]
        cases o.load with
        | error e => rfl
        | ok n => exact ⟨_, rfl, hknows.finish hlength hapart' n⟩

end Table

theorem ofValue_object (fields : Fields) : ofValue (.object fields) = loadObject fields := by
  have hschedule := foldlM_schedule [⟨[], fields⟩] [] [] (List.pairwise_singleton _ _)
  rw [List.reverse_singleton, List.mapM_cons, List.mapM_nil] at hschedule
  rw [ofValue]
  cases hload : loadObject fields with
  | error e =>
    rw [Occurrence.load, hload] at hschedule
    have hrun : (schedule [⟨[], fields⟩] []).foldlM build [] = .error e := hschedule
    rw [hrun]
    rfl
  | ok n =>
    rw [Occurrence.load, hload] at hschedule
    obtain ⟨built, hrun, hknows⟩ := hschedule
    have hlookup : built.lookup [] = some n := (List.cons.inj hknows.nodes).1
    rw [hrun]
    simp only [List.foldlM_nil, pure, Except.pure, bind, Except.bind, hlookup]

/-- Loading is a recursion: the objects that an object holds are loaded one after the other, up to
the first that fails, and then the object is made a node of, by its kind, its fields and its
position. -/
theorem ofValue_by_recursion (fields : Fields) :
    ofValue (.object fields) = (do
      let slots ← loadFields fields
      let kind ← slots.kind
      let node ← ofSlots slots kind
      return node (← slots.position)) ∧
    loadFields fields = (do
      let ns ← (nested fields).mapM fun inner => ofValue (.object inner)
      return fill fields ns) := by
  refine ⟨ofValue_object fields, ?_⟩
  rw [loadFields_eq, funext ofValue_object]
  rfl

end TemplateTree.Node
